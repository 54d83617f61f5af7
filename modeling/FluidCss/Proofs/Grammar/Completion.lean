import FluidCss.Proofs.Computation
import FluidCss.Proofs.Grammar.Boundary

set_option autoImplicit false

/-! # Where a text is refused

A text is refused at a place up to which it is the front of a sheet (`parse_error_position`): what has
been read can be completed, by what finishes the statement at hand and a closing brace for each open
block (`Unfinished.completion`).

The tokens that have been read were chosen with regard to the whole text, and with a completion in
the place of the rest they have to be chosen again. That they are is shown token by token from the
place of the error back to the start (`Unfinished.Stops.before`): the token in front of that place
ends in front of the completion, and for all others the text goes on as before. -/

namespace FluidCss

open Text

namespace Pending

/-- Whether a selector has been read and its brace is due. -/
def isSelector : Pending → Bool
  | selector .. => true
  | _ => false

/-- What finishes a statement or declaration that has been started. -/
def ending : Pending → List Char
  | property .. => [':', 'a']
  | value .. => ['a']
  | keyword .. | params .. => [';']
  | beginning | ruleBody | item | selector .. => []

end Pending

namespace Unfinished

variable {u v : Unfinished} {here last : Position}

/-- The text that finishes the statement at hand and closes the open blocks. -/
def completion (u : Unfinished) : List Char :=
  u.pending.ending ++ List.replicate u.blocks.length '\x7d'

theorem isClosing_completion (u : Unfinished) :
    ∀ c ∈ u.completion, Terminal.isClosing c = true := by
  intro c hc
  rcases List.mem_append.1 hc with hc | hc
  · have hall : u.pending.ending.all Terminal.isClosing = true := by
      cases u.pending <;> rfl
    exact List.all_eq_true.1 hall c hc
  · rw [List.eq_of_mem_replicate hc]
    rfl

/-! ## Completions are read -/

theorem piece?_replicate (n : Nat) : Terminal.piece? (List.replicate n '\x7d') = none := by
  cases n with
  | zero => rfl
  | succ n =>
    have hurl : Terminal.url? ('\x7d' :: List.replicate n '\x7d') = none := by
      refine Terminal.url?_eq_none_iff.2 fun u r l cs heq hletters => ?_
      obtain ⟨rfl, -⟩ := List.cons.inj heq
      exact absurd hletters.1 (by decide)
    simp [List.replicate_succ, Terminal.piece?, hurl, Terminal.isDelimiter]

/-- Open blocks are closed one after the other. -/
theorem read_replicate (n : Nat) (hblocks : u.blocks.length = n) (hbetween : u.IsBetween) :
    ∃ nodes, u.read here last (List.replicate n '\x7d') = .ok nodes := by
  induction n generalizing u here last with
  | zero =>
    have hnil : u.blocks = [] := List.length_eq_zero_iff.1 hblocks
    have hplace : u.place = .sheet := by rw [place, hnil]
    have hfinish : u.finish? = some u.nodes.reverse := by
      unfold finish?
      rcases hbetween with hp | ⟨hp, -⟩ | ⟨-, hrule⟩
      · simp [hp, atTop, hnil]
      · simp [hp, atTop, hnil]
      · rw [hplace] at hrule
        exact absurd hrule (by simp)
    refine ⟨u.nodes.reverse, ?_⟩
    rw [List.replicate_zero, read, if_pos List.isEmpty_nil, hfinish]
  | succ n ih =>
    obtain ⟨b, outer, hcons⟩ : ∃ b outer, u.blocks = b :: outer :=
      List.exists_cons_of_length_eq_add_one hblocks
    have hinside : u.pending = .ruleBody ∨ u.pending = .item := by
      rcases hbetween with hp | ⟨-, hsheet⟩ | ⟨hp, -⟩
      · exact .inr hp
      · exact absurd hsheet (place_ne_sheet_of_blocks hcons)
      · exact .inl hp
    have hfirst : Terminal.first? u.terminals (List.replicate (n + 1) '\x7d') =
        some (.closeBrace, ['\x7d'], List.replicate n '\x7d') := by
      rw [terminals, List.replicate_succ]
      rcases hinside with hp | hp <;> rw [hp] <;> rfl
    have hstep := step_of_takes (t := ⟨.closeBrace, ['\x7d'], here⟩)
      (Takes.closed hinside rfl b outer hcons)
    rw [read_of_step hfirst hstep]
    refine ih ?_ (.inl rfl)
    rw [hcons, List.length_cons] at hblocks
    exact Nat.succ.inj hblocks

/-- A statement at hand that takes one more token to finish is finished by it. -/
theorem exists_read_of_push {t : Terminal} {lexeme rest : List Char} {n : Node}
    (hfirst : Terminal.first? u.terminals (lexeme ++ rest) = some (t, lexeme, rest))
    (hstep : u.step ⟨t, lexeme, here⟩ = some (u.push n))
    (hrest : rest = List.replicate u.blocks.length '\x7d') :
    ∃ nodes, u.read here last (lexeme ++ rest) = .ok nodes := by
  rw [read_of_step hfirst hstep, hrest]
  exact read_replicate _ rfl (.inl rfl)

theorem exists_read_of_value {prop : String} {source : Position}
    (hp : u.pending = .value prop source) :
    ∃ nodes, u.read here last u.completion = .ok nodes := by
  let rest := List.replicate u.blocks.length '\x7d'
  have hurl : Terminal.url? ('a' :: rest) = none := by
    refine Terminal.url?_eq_none_iff.2 fun u r l cs heq hletters => ?_
    obtain ⟨rfl, -⟩ := List.cons.inj heq
    exact absurd hletters.1 (by decide)
  have hpiece : Terminal.piece? (['a'] ++ ([] ++ rest)) = some (['a'], [] ++ rest) := by
    simp [Terminal.piece?, hurl, Terminal.isDelimiter]
  have hvalue : Terminal.splitValue? (['a'] ++ rest) = some (['a'], rest) :=
    Terminal.splitValue?_eq_some_iff.2
      ⟨⟨'a', [], rfl, rfl⟩, .cons hpiece (.nil (piece?_replicate _))⟩
  have hfirst : Terminal.first? u.terminals (['a'] ++ rest) = some (.value, ['a'], rest) := by
    rw [terminals, hp]
    exact Terminal.first?_cons hvalue
  have hcompletion : u.completion = ['a'] ++ rest := by rw [completion, hp]; rfl
  rw [hcompletion]
  exact exists_read_of_push hfirst (step_of_takes (Takes.value prop source hp rfl)) rfl

/-- **What has been read can be completed.** -/
theorem exists_read_completion {ts : List Token} (hts : empty.steps ts = some u)
    (hselector : u.pending.isSelector = false) :
    ∃ nodes, u.read here last u.completion = .ok nodes := by
  obtain ⟨d, hd, -⟩ := Partial.exists_describes hts
  have hstarted := hd.started
  have hcompletion : u.completion = u.pending.ending ++ List.replicate u.blocks.length '\x7d' := rfl
  cases hp : u.pending with
  | beginning =>
    rw [hp] at hstarted
    rw [hcompletion, hp]
    exact read_replicate _ rfl (.inr (.inl ⟨hp, hd.place.trans hstarted.2⟩))
  | ruleBody =>
    rw [hp] at hstarted
    rw [hcompletion, hp]
    exact read_replicate _ rfl (.inr (.inr ⟨hp, hd.place.trans hstarted.2⟩))
  | item =>
    rw [hcompletion, hp]
    exact read_replicate _ rfl (.inl hp)
  | selector selector source => exact absurd hselector (by simp [hp, Pending.isSelector])
  | property prop source =>
    let v : Unfinished := { u with pending := .value prop source }
    have hstep : u.step ⟨.colon, [':'], here⟩ = some v :=
      step_of_takes (Takes.colon prop source hp rfl)
    have hfirst : Terminal.first? u.terminals (':' :: v.completion) =
        some (.colon, [':'], v.completion) := by
      rw [terminals, hp]
      exact Terminal.first?_colon _
    have hcolon : u.completion = ':' :: v.completion := by rw [completion, hp]; rfl
    rw [hcolon, read_of_step hfirst hstep]
    exact exists_read_of_value rfl
  | value prop source => exact exists_read_of_value hp
  | keyword name source =>
    rw [hcompletion, hp]
    refine exists_read_of_push ?_ (step_of_takes (Takes.endedBare name source hp rfl)) rfl
    rw [terminals, hp]
    exact Terminal.first?_keyword_semicolon _
  | params name params source =>
    rw [hcompletion, hp]
    refine exists_read_of_push ?_ (step_of_takes (Takes.ended name params source hp rfl)) rfl
    rw [terminals, hp]
    exact Terminal.first?_params_semicolon _

/-! ## Tokens in front of a completion -/

theorem ends_completion_of_skipped {t : Terminal} (skipped : t.isSkipped = true)
    (u : Unfinished) : t.Ends u.completion := by
  cases t with
  | comment => trivial
  | blank =>
    intro c hc
    have hclosing := u.isClosing_completion c (List.mem_of_mem_head? hc)
    simp only [Terminal.isClosing, Bool.or_eq_true, beq_iff_eq] at hclosing
    rcases hclosing with ((rfl | rfl) | rfl) | rfl <;> rfl
  | _ => exact absurd skipped (by simp [Terminal.isSkipped])

/-- A token that has been taken in ends in front of what completes the sheet behind it. -/
theorem ends_completion_of_step {t : Token} (h : u.step t = some v)
    (hselector : v.pending.isSelector = false) : t.terminal.Ends v.completion := by
  have hmark : ∀ {c d : Char} {cs : List Char}, c ∈ (d :: cs).head? → c = d := fun hc =>
    (Option.some.inj hc).symm
  cases takes_of_step h with
  | selector => exact absurd hselector (by simp [Pending.isSelector])
  | keyword between kind outside =>
    rw [kind]
    intro c hc
    rw [hmark hc]
    rfl
  | property between kind inside =>
    rw [kind]
    intro c hc
    rw [hmark hc]
    rfl
  | params name source started kind =>
    rw [kind]
    intro c hc
    rw [hmark hc]
    rfl
  | value prop source started kind =>
    rw [kind]
    exact piece?_replicate _
  | skipped _ kind | closed _ kind | openedRule _ _ _ kind | colon _ _ _ kind
  | openedBare _ _ _ kind | endedBare _ _ _ kind | opened _ _ _ _ kind | ended _ _ _ _ kind =>
    rw [kind]
    trivial

/-- Behind a selector stands its brace. -/
theorem head?_of_step {t : Token} {cs rest : List Char} (h : u.step t = some v)
    (hsplit : t.terminal.split? cs = some (t.lexeme, rest))
    (hselector : v.pending.isSelector = true) : rest.head? = some '\x7b' := by
  have hends := Terminal.ends_of_split? hsplit
  cases takes_of_step h with
  | selector between kind outside =>
    rw [kind] at hends
    exact hends
  | skipped between kind inside =>
    dsimp only at hselector
    split at hselector <;> exact absurd hselector (by simp [Pending.isSelector])
  | _ => exact absurd hselector (by simp [Pending.isSelector, push, openBlock])

/-- The brace behind a selector is taken in. -/
theorem exists_step_of_isSelector (here : Position) {cs : List Char}
    (hselector : u.pending.isSelector = true) (hbrace : cs.head? = some '\x7b') : ∃ rest v,
      Terminal.first? u.terminals cs = some (.openBrace, ['\x7b'], rest) ∧
        u.step ⟨.openBrace, ['\x7b'], here⟩ = some v := by
  obtain ⟨rest, rfl⟩ := List.head?_eq_some_iff.1 hbrace
  cases hp : u.pending with
  | selector selector source =>
    refine ⟨rest, _, ?_, step_of_takes (Takes.openedRule selector source hp rfl)⟩
    rw [terminals, hp]
    exact Terminal.first?_openBrace rest
  | _ => exact absurd hselector (by simp [hp, Pending.isSelector])

/-- Where a text starts with the brace that is due and no token of it is taken in, none is due. -/
theorem isSelector_eq_false (here : Position) {cs : List Char}
    (hbrace : u.pending.isSelector = true → cs.head? = some '\x7b')
    (hstop : ∀ {t lexeme rest}, Terminal.first? u.terminals cs = some (t, lexeme, rest) →
      u.step ⟨t, lexeme, here⟩ = none) : u.pending.isSelector = false := by
  rw [Bool.eq_false_iff]
  intro hs
  obtain ⟨rest, v, hfirst, hstep⟩ := exists_step_of_isSelector here hs (hbrace hs)
  exact absurd (hstop hfirst) (by simp [hstep])

/-! ## Where reading stops -/

/-- Reading `a ++ b` stops with a refusal between the two texts, and goes on to the end of a sheet
if `w` takes the place of `b`. -/
structure Stops (u : Unfinished) (here last : Position) (r : Refusal) (a b w : List Char) :
    Prop where
  closing : ∀ c ∈ w, Terminal.isClosing c = true
  completes : ∃ nodes, u.read here last (a ++ w) = .ok nodes
  at_once : a = [] → u.pending.isSelector = false ∧ w = u.completion
  refused : b ≠ [] → r.position = here.after a ∧
    (r.reason = .unknownWord ∨ ∃ text, r.reason = .unexpected text)
  ended : b = [] → r.reason = .unclosedBlock

namespace Stops

variable {r : Refusal} {a b w lexeme : List Char} {t : Terminal}

/-- What has been read is completed in the place of all that is left. -/
theorem at_start {ts : List Token} (hts : empty.steps ts = some u)
    (hselector : u.pending.isSelector = false)
    (hrefused : b ≠ [] → r.position = here ∧
      (r.reason = .unknownWord ∨ ∃ text, r.reason = .unexpected text))
    (hended : b = [] → r.reason = .unclosedBlock) : u.Stops here last r [] b u.completion where
  closing := u.isClosing_completion
  completes := exists_read_completion hts hselector
  at_once := fun _ => ⟨hselector, rfl⟩
  refused := hrefused
  ended := hended

/-- A token in front is read as before. -/
theorem first?_eq (h : v.Stops (here.after lexeme) last r a b w)
    (hfirst : Terminal.first? u.terminals (lexeme ++ (a ++ b)) = some (t, lexeme, a ++ b))
    (hends : v.pending.isSelector = false → t.Ends v.completion) :
    Terminal.first? u.terminals (lexeme ++ (a ++ w)) = some (t, lexeme, a ++ w) := by
  refine Terminal.first?_exchange hfirst h.closing fun ha => ?_
  obtain ⟨hselector, rfl⟩ := h.at_once ha
  exact hends hselector

theorem before (h : v.Stops (here.after lexeme) last r a b w) (hne : lexeme ≠ [])
    {last' : Position} (hread : ∃ nodes, u.read here last' (lexeme ++ (a ++ w)) = .ok nodes) :
    u.Stops here last' r (lexeme ++ a) b w where
  closing := h.closing
  completes := by rwa [List.append_assoc]
  at_once ha := absurd (List.append_eq_nil_iff.1 ha).1 hne
  refused hb := by rw [Position.after_append]; exact h.refused hb
  ended := h.ended

end Stops

theorem mismatch_cases (cs : List Char) :
    mismatch cs = .unknownWord ∨ ∃ text, mismatch cs = .unexpected text := by
  unfold mismatch
  split
  · exact .inr ⟨_, rfl⟩
  · exact .inl rfl

/-- **A text that is refused is refused behind the front of a sheet.** -/
theorem exists_stops {ts : List Token} {cs : List Char} {r : Refusal}
    (hts : empty.steps ts = some u)
    (hbrace : u.pending.isSelector = true → cs.head? = some '\x7b')
    (h : u.read here last cs = .error r) :
    ∃ a b w, cs = a ++ b ∧ u.Stops here last r a b w := by
  fun_induction Unfinished.read u here last cs generalizing ts with
  | case1 => exact absurd h (by simp)
  | case2 u here last cs hcs hfinish =>
    obtain rfl := List.isEmpty_iff.1 hcs
    obtain rfl := Except.error.inj h
    have hselector : u.pending.isSelector = false := by
      rw [Bool.eq_false_iff]
      exact fun hs => absurd (hbrace hs) (by simp)
    exact ⟨[], [], _, rfl, .at_start hts hselector (fun hb => absurd rfl hb) fun _ => rfl⟩
  | case3 u here last cs hcs hnone =>
    obtain rfl := Except.error.inj h
    have hselector : u.pending.isSelector = false := by
      refine isSelector_eq_false here hbrace fun hfirst => ?_
      exact absurd hfirst (by simp [hnone])
    exact ⟨[], cs, _, rfl, .at_start hts hselector (fun _ => ⟨rfl, mismatch_cases cs⟩)
      fun hb => absurd (List.isEmpty_iff.2 hb) hcs⟩
  | case4 u here last cs hcs t lexeme rest hfirst skipped ih =>
    obtain ⟨happend, hne⟩ :=
      Terminal.split?_append _ _ _ _ (Terminal.first?_split? _ _ _ _ _ hfirst).2
    have hselector : u.pending.isSelector = false := by
      refine isSelector_eq_false here hbrace fun hfirst' => ?_
      obtain ⟨rfl, rfl, -⟩ := by simpa using hfirst.symm.trans hfirst'
      refine Option.eq_none_iff_forall_ne_some.2 fun v hstep => ?_
      exact absurd skipped (by simp [not_isSkipped_of_step hstep])
    obtain ⟨a, b, w, rfl, hstops⟩ := ih hts (fun hs => absurd hs (by simp [hselector])) h
    refine ⟨lexeme ++ a, b, w, by rw [List.append_assoc, happend], hstops.before hne ?_⟩
    rw [← happend] at hfirst
    rw [read_of_skipped (hstops.first?_eq hfirst fun _ => ends_completion_of_skipped skipped u)
      skipped]
    exact hstops.completes
  | case5 u here last cs hcs t lexeme rest hfirst counted refused =>
    obtain rfl := Except.error.inj h
    have hselector : u.pending.isSelector = false := by
      refine isSelector_eq_false here hbrace fun hfirst' => ?_
      obtain ⟨rfl, rfl, -⟩ := by simpa using hfirst.symm.trans hfirst'
      exact refused
    exact ⟨[], cs, _, rfl, .at_start hts hselector (fun _ => ⟨rfl, .inr ⟨_, rfl⟩⟩)
      fun hb => absurd (List.isEmpty_iff.2 hb) hcs⟩
  | case6 u here last cs hcs t lexeme rest hfirst counted next hstep ih =>
    have hsplit := (Terminal.first?_split? _ _ _ _ _ hfirst).2
    obtain ⟨happend, hne⟩ := Terminal.split?_append _ _ _ _ hsplit
    have hsteps : empty.steps (ts ++ [⟨t, lexeme, here⟩]) = some next := by
      rw [steps_append, hts, Option.bind_some, steps, hstep]
      rfl
    obtain ⟨a, b, w, rfl, hstops⟩ := ih hsteps (head?_of_step hstep hsplit) h
    refine ⟨lexeme ++ a, b, w, by rw [List.append_assoc, happend], hstops.before hne ?_⟩
    rw [← happend] at hfirst
    rw [read_of_step (hstops.first?_eq hfirst (ends_completion_of_step hstep)) hstep]
    exact hstops.completes

/-- A text that ends too early is cut into tokens to its end, and refused at the last of them. -/
theorem exists_cut_of_unclosed {ts : List Token} {cs : List Char} {r : Refusal}
    (hts : empty.steps ts = some u) (h : u.read here last cs = .error r)
    (hreason : r.reason = .unclosedBlock) :
    ∃ ts' v, Cut (ts.map (·.terminal)) here cs ts' ∧ u.steps ts' = some v ∧ v.finish? = none ∧
      r.position = (ts'.getLast?.map Token.position).getD last := by
  fun_induction Unfinished.read u here last cs generalizing ts with
  | case1 => exact absurd h (by simp)
  | case2 u here last cs hcs hfinish =>
    obtain rfl := List.isEmpty_iff.1 hcs
    obtain rfl := Except.error.inj h
    exact ⟨[], u, .nil _ _, rfl, hfinish, rfl⟩
  | case3 u here last cs hcs hnone =>
    obtain rfl := Except.error.inj h
    rcases mismatch_cases cs with hm | ⟨text, hm⟩ <;> exact absurd (hm.symm.trans hreason) (by simp)
  | case4 u here last cs hcs t lexeme rest hfirst skipped ih =>
    obtain ⟨ts', v, hcut, hrest⟩ := ih hts h
    exact ⟨ts', v, (Cut.skip_iff (found_of_read hts hfirst) skipped).2 hcut, hrest⟩
  | case5 u here last cs hcs t lexeme rest hfirst counted refused =>
    obtain rfl := Except.error.inj h
    exact absurd hreason (by simp)
  | case6 u here last cs hcs t lexeme rest hfirst counted next hstep ih =>
    have hsteps : empty.steps (ts ++ [⟨t, lexeme, here⟩]) = some next := by
      rw [steps_append, hts, Option.bind_some, steps, hstep]
      rfl
    have follows : CanFollow (ts.map (·.terminal)) t :=
      (canFollow_iff hts ⟨t, lexeme, here⟩).2 ⟨next, hstep⟩
    obtain ⟨ts', v, hcut, hv, hfinish, hposition⟩ := ih hsteps h
    rw [List.map_append, List.map_cons, List.map_nil] at hcut
    refine ⟨⟨t, lexeme, here⟩ :: ts', v, ?_, ?_, hfinish, ?_⟩
    · exact (Cut.token_iff (found_of_read hts hfirst) follows).2 ⟨ts', rfl, hcut⟩
    · rw [steps, hstep, Option.bind_some, hv]
    · rw [hposition, List.getLast?_cons]
      cases ts'.getLast? <;> rfl

end Unfinished

/-! ## Errors -/

/-- The statements of a text are refused where the text is. -/
theorem exists_refusal_of_parse {css : String} {name : Option String} {e : CssError}
    (h : Sheet.parse css name = .error e) : ∃ r, Sheet.parseNodes css.toList = .error r ∧
      e.reason = r.reason ∧ e.line = some r.position.line ∧ e.column = some r.position.column := by
  unfold Sheet.parse at h
  split at h
  · exact absurd h (by simp)
  · next r hr =>
    obtain rfl := Except.error.inj h
    exact ⟨r, hr, rfl, rfl, rfl⟩

theorem exists_parse_of_parseNodes {css : String} {nodes : List Node}
    (h : Sheet.parseNodes css.toList = .ok nodes) (name : Option String) :
    ∃ sheet, Sheet.parse css name = .ok sheet :=
  ⟨⟨nodes, some css, name⟩, (parse_eq_ok_iff css name _).2 ⟨h, rfl, rfl⟩⟩

/-- The last token of a text that ends too early stands where the text is refused. -/
theorem exists_last_token {css : List Char} {r : Refusal} (h : Sheet.parseNodes css = .error r)
    (hreason : r.reason = .unclosedBlock) : ∃ ts t p, Cut [] .start css (ts ++ [t]) ∧
      t.StandsAt css p ∧ p < css.length ∧ r.position = t.position := by
  have hempty : Unfinished.empty.steps [] = some Unfinished.empty := rfl
  obtain ⟨ts, v, hcut, hsteps, hfinish, hposition⟩ :=
    Unfinished.exists_cut_of_unclosed hempty h hreason
  rcases List.eq_nil_or_concat ts with rfl | ⟨ts, t, rfl⟩
  · -- without tokens the text would be that of the empty sheet
    obtain rfl := Option.some.inj hsteps
    exact absurd hfinish (by simp [Unfinished.finish?, Unfinished.empty, Unfinished.atTop])
  · rw [List.concat_eq_append] at hcut hposition
    obtain ⟨offsets, hall, -⟩ := @Cut.exists_offsets _ _ _ _ hcut [] rfl
    obtain ⟨p, -, hstands⟩ := exists_of_forall₂ hall t (by simp)
    refine ⟨ts, t, p, hcut, hstands, ?_, by simpa using hposition⟩
    obtain ⟨rest, hsplit⟩ := hcut.isCut t (by simp)
    have hlength := hstands.2.length_le
    have hpos := List.length_pos_iff.2 (Terminal.split?_append _ _ _ _ hsplit).2
    rw [List.nil_append, List.length_drop] at hlength
    omega

/-- Whether a text is the front of a style sheet. -/
def IsFrontOfSheet (text : String) (name : Option String) : Prop :=
  ∃ w sheet, Sheet.parse (text ++ w) name = .ok sheet

/-- An error that is reported for the offset `p` of a text. Where an unknown word or a token that
cannot stand there is the reason, the text in front of `p` is the front of a sheet. Where the text
ends too early, its last token stands at `p`, and the whole of it is the front of a sheet. -/
structure CssError.IsPlacedAt (e : CssError) (css : String) (name : Option String) (p : ℕ) :
    Prop where
  inside : p < css.toList.length
  line : e.line = some (Position.behind (css.toList.take p)).line
  column : e.column = some (Position.behind (css.toList.take p)).column
  viable : (e.reason = .unknownWord ∨ ∃ text, e.reason = .unexpected text) ∧
      IsFrontOfSheet (String.ofList (css.toList.take p)) name ∨
    e.reason = .unclosedBlock ∧
      (∃ ts t, Cut [] .start css.toList (ts ++ [t]) ∧ t.StandsAt css.toList p) ∧
      IsFrontOfSheet css name

/-- **Errors are placed where a sheet stops.** -/
theorem parse_error_position {css : String} {name : Option String} {e : CssError}
    (h : Sheet.parse css name = .error e) : ∃ p, e.IsPlacedAt css name p := by
  obtain ⟨r, hr, hreason, hline, hcolumn⟩ := exists_refusal_of_parse h
  have hempty : Unfinished.empty.steps [] = some Unfinished.empty := rfl
  obtain ⟨a, b, w, hcss, hstops⟩ :=
    Unfinished.exists_stops hempty (fun hs => absurd hs (by decide)) hr
  obtain ⟨nodes, hnodes⟩ := hstops.completes
  have hparse {text : String} (htext : text.toList = a ++ w) :
      ∃ sheet, Sheet.parse text name = .ok sheet :=
    exists_parse_of_parseNodes (htext ▸ hnodes) name
  by_cases hb : b = []
  · have hended := hstops.ended hb
    obtain ⟨ts, t, p, hcut, hstands, hp, hposition⟩ := exists_last_token hr hended
    rw [hposition, hstands.1] at hline hcolumn
    refine ⟨p, hp, hline, hcolumn, .inr ⟨hreason.trans hended, ⟨ts, t, hcut, hstands⟩, ?_⟩⟩
    refine ⟨String.ofList w, hparse ?_⟩
    rw [String.toList_append, String.toList_ofList, hcss, hb, List.append_nil]
  · obtain ⟨hposition, hkind⟩ := hstops.refused hb
    have htake : css.toList.take a.length = a := by rw [hcss, List.take_left]
    rw [hposition, Position.start_after] at hline hcolumn
    rw [← htake] at hline hcolumn
    refine ⟨a.length, ?_, hline, hcolumn, .inl ⟨by rwa [hreason], String.ofList w, hparse ?_⟩⟩
    · rw [hcss, List.length_append]
      have hpos := List.length_pos_iff.2 hb
      omega
    · rw [String.toList_append, String.toList_ofList, String.toList_ofList, htake]

/-- A rule that is cut off inside its second declaration, below a comment with a brace. -/
def cutOffRule : String :=
  "/* \x7b */ .a \x7b\n  b: c;\n  d"

/-- The rule is refused at its last word. -/
theorem parse_error_position_cutOffRule :
    ∃ e, Sheet.parse cutOffRule none = .error e ∧ e.reason = .unclosedBlock ∧
      e.line = some 3 ∧ e.column = some 3 ∧ ∃ p, e.IsPlacedAt cutOffRule none p := by
  obtain ⟨e, h, hreason, hline, hcolumn⟩ : ∃ e, Sheet.parse cutOffRule none = .error e ∧
      e.reason = .unclosedBlock ∧ e.line = some 3 ∧ e.column = some 3 := by
    decide +kernel
  exact ⟨e, h, hreason, hline, hcolumn, parse_error_position h⟩

end FluidCss
