import FluidCss.Proofs.Grammar.Following
import Mathlib.Data.List.Basic

set_option autoImplicit false

/-! # Reading accepts exactly the grammar

The reader tries more kinds of tokens than the grammar allows at some places: behind a value in a
rule also those that start a statement, behind a statement of the sheet also those that stand in a
block. It makes no difference. A kind that is tried in vain costs nothing, and where one matches
that the grammar does not allow, none matches that it does allow (`split?_eq_none_of_refused`): a
value ends only in front of a delimiter or a quote, and no two kinds that start differently match
at one place. -/

namespace FluidCss

open Text

namespace Terminal

/-! ## The first character of a token -/

/-- The characters that a token of a kind can start with. -/
def starts : Terminal → Char → Prop
  | selector, c => isPlain c = true ∧ c ≠ '@' ∧ c ≠ '/'
  | value, _ => True
  | property, c => isNameStart c = true ∨ c = '-'
  | atKeyword, c => c = '@'
  | comment, c => c = '/'
  | atParams, c => isPlain c = true
  | blank, c => isGap c = true
  | colon, c => c = ':'
  | openBrace, c => c = '\x7b'
  | closeBrace, c => c = '\x7d'
  | semicolon, c => c = ';'

theorem head_of_headed? {head tail : Char → Bool} {cs : List Char} {cut : List Char × List Char}
    (h : headed? head tail cs = some cut) : ∃ c cs', cs = c :: cs' ∧ head c = true := by
  unfold headed? at h
  split at h
  · exact absurd h (by simp)
  · split at h
    · next hc => exact ⟨_, _, rfl, hc⟩
    · exact absurd h (by simp)

theorem head_of_mark? {mark : Char} {cs : List Char} {cut : List Char × List Char}
    (h : mark? mark cs = some cut) : ∃ cs', cs = mark :: cs' := by
  unfold mark? at h
  split at h
  · exact absurd h (by simp)
  · split at h
    · next hc => exact ⟨_, by rw [hc]⟩
    · exact absurd h (by simp)

theorem starts_of_split? {t : Terminal} {cs : List Char} {cut : List Char × List Char}
    (h : t.split? cs = some cut) : ∃ c cs', cs = c :: cs' ∧ t.starts c := by
  cases t with
  | selector =>
    change splitSelector? cs = some cut at h
    unfold splitSelector? at h
    split at h
    · next hs =>
      obtain ⟨c, cs', rfl, hc⟩ := head_of_headed? hs
      simp only [Bool.and_eq_true, bne_iff_ne] at hc
      exact ⟨c, cs', rfl, hc.1.1.2, hc.1.2, hc.2⟩
    · exact absurd h (by simp)
  | value =>
    cases cs with
    | nil => exact absurd h (by simp [split?, splitValue?])
    | cons c cs' => exact ⟨c, cs', rfl, trivial⟩
  | property =>
    change splitProperty? cs = some cut at h
    unfold splitProperty? at h
    split at h
    · exact ⟨_, _, rfl, .inr rfl⟩
    · exact ⟨_, _, rfl, .inr rfl⟩
    · obtain ⟨c, cs', rfl, hc⟩ := head_of_headed? h
      exact ⟨c, cs', rfl, .inl hc⟩
  | atKeyword =>
    change splitKeyword? cs = some cut at h
    unfold splitKeyword? at h
    split at h
    · exact ⟨_, _, rfl, rfl⟩
    · exact absurd h (by simp)
  | comment =>
    change splitComment? cs = some cut at h
    unfold splitComment? at h
    split at h
    · exact ⟨_, _, rfl, rfl⟩
    · exact absurd h (by simp)
  | atParams =>
    obtain ⟨c, cs', rfl, hc⟩ := head_of_headed? h
    simp only [Bool.and_eq_true] at hc
    exact ⟨c, cs', rfl, hc.2⟩
  | blank =>
    cases cs with
    | nil => exact absurd h (by simp [split?, run?])
    | cons c cs' =>
      by_cases hc : isGap c = true
      · exact ⟨c, cs', rfl, hc⟩
      · exact absurd h (by simp [split?, run?, hc])
  | colon => obtain ⟨cs', rfl⟩ := head_of_mark? h; exact ⟨_, _, rfl, rfl⟩
  | openBrace => obtain ⟨cs', rfl⟩ := head_of_mark? h; exact ⟨_, _, rfl, rfl⟩
  | closeBrace => obtain ⟨cs', rfl⟩ := head_of_mark? h; exact ⟨_, _, rfl, rfl⟩
  | semicolon => obtain ⟨cs', rfl⟩ := head_of_mark? h; exact ⟨_, _, rfl, rfl⟩

theorem split?_eq_none_of_not_starts {t : Terminal} {c : Char} (h : ¬ t.starts c)
    (cs : List Char) : t.split? (c :: cs) = none := by
  cases hs : t.split? (c :: cs) with
  | none => rfl
  | some cut =>
    obtain ⟨c', cs', heq, hc⟩ := starts_of_split? hs
    obtain ⟨rfl, -⟩ := List.cons.inj heq
    exact absurd hc h

/-! ## The first kind that matches -/

/-- A token of a kind stands at the front of a text, and of no allowed kind that is tried before
it. -/
def Found (allowed : Terminal → Prop) (cs : List Char) (t : Terminal) (lexeme rest : List Char) :
    Prop :=
  t.split? cs = some (lexeme, rest) ∧
    ∀ us vs u, all = us ++ t :: vs → u ∈ us → allowed u → u.split? cs = none

theorem Found.unique {allowed : Terminal → Prop} {cs : List Char} {t t' : Terminal}
    {lexeme rest lexeme' rest' : List Char} (h : Found allowed cs t lexeme rest)
    (h' : Found allowed cs t' lexeme' rest') (ht : allowed t) (ht' : allowed t') :
    t = t' ∧ lexeme = lexeme' ∧ rest = rest' := by
  have hmem : t' ∈ all := by cases t' <;> decide
  obtain ⟨us, vs, hall⟩ : ∃ us vs, all = us ++ t :: vs :=
    List.append_of_mem (by cases t <;> decide)
  -- whichever of the two comes first in the order hides the other
  rw [hall, List.mem_append, List.mem_cons] at hmem
  rcases hmem with hbefore | rfl | hbehind
  · exact absurd h'.1 (by simp [h.2 us vs t' hall hbefore ht'])
  · have heq := h.1.symm.trans h'.1
    simp only [Option.some.injEq, Prod.mk.injEq] at heq
    exact ⟨rfl, heq.1, heq.2⟩
  · obtain ⟨xs, ys, rfl⟩ := List.append_of_mem hbehind
    have hall' : all = (us ++ t :: xs) ++ t' :: ys := by simp [hall]
    exact absurd h.1 (by simp [h'.2 _ ys t hall' (by simp) ht])

/-- No kind before the first that matches does match. -/
theorem split?_eq_none_of_first? {ts us vs : List Terminal} {cs : List Char} {t : Terminal}
    {lexeme rest : List Char} (h : first? ts cs = some (t, lexeme, rest)) (hts : ts = us ++ t :: vs)
    (hnot : t ∉ us) : ∀ u ∈ us, u.split? cs = none := by
  induction us generalizing ts with
  | nil => simp
  | cons u us ih =>
    subst hts
    rw [List.cons_append, first?] at h
    simp only [List.mem_cons, not_or] at hnot
    split at h
    · simp only [Option.some.injEq, Prod.mk.injEq] at h
      exact absurd h.1.symm hnot.1
    · next hu =>
      intro k hk
      rcases List.mem_cons.1 hk with rfl | hk
      · exact hu
      · exact ih h rfl hnot.2 k hk

/-- The kind that the reader finds is the first one among all that it tries. -/
theorem found_of_first? {ts : List Terminal} {cs : List Char} {t : Terminal}
    {lexeme rest : List Char} (h : first? (triedWith ts) cs = some (t, lexeme, rest)) :
    Found (fun u => u.isSkipped = true ∨ u ∈ ts) cs t lexeme rest := by
  obtain ⟨hmem, hsplit⟩ := first?_split? _ _ _ _ _ h
  refine ⟨hsplit, ?_⟩
  intro us vs u hall hu hallowed
  -- the reader leaves out the kinds that are not tried, and keeps the order of the others
  let tried : Terminal → Bool := fun t => t.isSkipped || ts.contains t
  have ht : tried t = true := (List.mem_filter.1 hmem).2
  have htried : triedWith ts = us.filter tried ++ t :: vs.filter tried := by
    rw [triedWith, hall, List.filter_append]
    exact congrArg _ (List.filter_cons_of_pos ht)
  have hnodup : all.Nodup := by decide
  rw [hall] at hnodup
  have hnot : t ∉ us.filter tried := by
    intro hin
    exact (List.nodup_append.1 hnodup).2.2 t (List.mem_of_mem_filter hin) t (by simp) rfl
  refine split?_eq_none_of_first? h htried hnot u (List.mem_filter.2 ⟨hu, ?_⟩)
  simpa [tried] using hallowed

/-! ## What stands behind a value -/

/-- The characters that no piece of a value starts with unless it is a whole string. -/
def endsValue (c : Char) : Prop := isDelimiter c = true ∨ c = '\x22' ∨ c = '\x27'

theorem endsValue_of_piece? {c : Char} {cs : List Char} (h : piece? (c :: cs) = none) :
    endsValue c := by
  unfold piece? at h
  dsimp only at h
  split at h
  · next hc => exact .inr hc
  · split at h
    · exact absurd h (by simp)
    · split at h
      · next hc => exact .inl hc
      · exact absurd h (by simp)

theorem piece?_pieces (cs : List Char) : piece? (pieces cs).2 = none := by
  fun_induction pieces cs with
  | case1 cs h => exact h
  | case2 cs lexeme rest h ih => exact ih

/-- A value ends at the end of the text or in front of a delimiter or a quote. -/
theorem endsValue_of_splitValue? {cs lexeme rest : List Char} {c : Char}
    (h : splitValue? cs = some (lexeme, c :: rest)) : endsValue c := by
  unfold splitValue? at h
  split at h
  · exact absurd h (by simp)
  · split at h
    · exact absurd h (by simp)
    · obtain ⟨⟨first, others⟩, -, heq⟩ := Option.map_eq_some_iff.1 h
      simp only [Prod.mk.injEq] at heq
      have hpiece := piece?_pieces others
      rw [heq.2] at hpiece
      exact endsValue_of_piece? hpiece

/-- The characters that start a token of a kind that may stand behind a value are none that end a
value, delimiters apart. -/
theorem not_endsValue_of_isSkipped {t : Terminal} {c : Char} (skipped : t.isSkipped = true)
    (h : t.starts c) : ¬ endsValue c := by
  cases t with
  | comment =>
    obtain rfl : c = '/' := h
    simp [endsValue, isDelimiter]
  | blank =>
    have hgap : isGap c = true := h
    simp only [isGap, Bool.or_eq_true, beq_iff_eq] at hgap
    rcases hgap with (((rfl | rfl) | rfl) | rfl) | rfl <;> simp [endsValue, isDelimiter]
  | _ => exact absurd skipped (by simp [isSkipped])

end Terminal

/-- The kinds of tokens that the grammar allows at a place behind a whole statement or
declaration. -/
def Place.follow : Place → List Terminal
  | sheet => [.selector, .atKeyword]
  | rule => [.property, .semicolon, .closeBrace]
  | block => [.selector, .property, .atKeyword, .semicolon, .closeBrace]

namespace Unfinished

/-- Behind a value in a rule the text goes on as a value can end. -/
def Fits (u : Unfinished) (cs : List Char) : Prop :=
  u.pending = .item → u.place = .rule → ∀ c cs', cs = c :: cs' → Terminal.endsValue c

theorem fits_of_skipped {u : Unfinished} {cs lexeme rest : List Char} {t : Terminal}
    (h : u.Fits cs) (skipped : t.isSkipped = true) (hs : t.split? cs = some (lexeme, rest)) :
    u.Fits rest := by
  intro hitem hrule
  obtain ⟨c, cs', rfl, hc⟩ := Terminal.starts_of_split? hs
  exact absurd (h hitem hrule c cs' rfl) (Terminal.not_endsValue_of_isSkipped skipped hc)

/-- A declaration ends nowhere but behind a value, and nothing else ends in a rule. -/
theorem fits_of_step {d : Partial} {u v : Unfinished} {t : Token} {cs rest : List Char}
    (hd : d.Describes u) (hs : u.step t = some v)
    (hsplit : t.terminal.split? cs = some (t.lexeme, rest)) : v.Fits rest := by
  intro hitem hrule
  have hstarted := hd.started
  cases takes_of_step hs with
  | value prop source started kind =>
    intro c cs' hcs
    rw [kind, hcs] at hsplit
    exact Terminal.endsValue_of_splitValue? hsplit
  | skipped between kind inside =>
    have hr : u.inRule = true := u.inRule_iff.2 hrule
    simp [hr] at hitem
  | closed between kind b outer blocks =>
    have hvalid := hd.layers_valid
    cases hl : d.layers with
    | nil => simp [hd.blocks, hl] at blocks
    | cons l ls =>
      rw [hl] at hvalid
      rw [hd.blocks, hl, List.map_cons, List.cons.injEq] at blocks
      exact absurd ((Partial.place_eq ls _ blocks.2.symm).symm.trans hrule) hvalid.2.1
  | endedBare name source started kind =>
    rw [started] at hstarted
    obtain ⟨s, -, outside, -⟩ := hstarted
    exact absurd (hd.place.symm.trans hrule) outside
  | ended name params source started kind =>
    rw [started] at hstarted
    obtain ⟨s, p, -, outside, -⟩ := hstarted
    exact absurd (hd.place.symm.trans hrule) outside
  | openedRule => exact absurd hitem (by simp [openBlock])
  | openedBare => exact absurd hrule (by simp [Unfinished.place, openBlock])
  | opened => exact absurd hrule (by simp [Unfinished.place, openBlock])
  | _ => simp at hitem

/-! ## What is tried in vain -/

/-- Whatever is taken in has been tried. -/
theorem mem_terminals_of_step {u v : Unfinished} {t : Token} (h : u.step t = some v) :
    t.terminal ∈ u.pending.terminals := by
  cases takes_of_step h with
  | selector between kind outside =>
    rcases between with hp | hp <;> simp [hp, kind, Pending.terminals]
  | keyword between kind outside =>
    rcases between with hp | hp <;> simp [hp, kind, Pending.terminals]
  | property between kind inside =>
    rcases between with hp | hp <;> simp [hp, kind, Pending.terminals]
  | skipped between kind inside =>
    rcases between with hp | hp <;> simp [hp, kind, Pending.terminals]
  | closed between kind b outer blocks =>
    rcases between with hp | hp <;> simp [hp, kind, Pending.terminals]
  | openedRule selector source started kind => simp [started, kind, Pending.terminals]
  | colon prop source started kind => simp [started, kind, Pending.terminals]
  | value prop source started kind => simp [started, kind, Pending.terminals]
  | params name source started kind => simp [started, kind, Pending.terminals]
  | openedBare name source started kind => simp [started, kind, Pending.terminals]
  | endedBare name source started kind => simp [started, kind, Pending.terminals]
  | opened name params source started kind => simp [started, kind, Pending.terminals]
  | ended name params source started kind => simp [started, kind, Pending.terminals]

/-- Where some block is open, there is one to close. -/
theorem exists_blocks {u : Unfinished} (inside : u.place ≠ .sheet) :
    ∃ b outer, u.blocks = b :: outer := by
  cases hb : u.blocks with
  | nil => exact absurd (by simp [Unfinished.place, hb]) inside
  | cons b outer => exact ⟨b, outer, rfl⟩

/-- Behind a whole statement or declaration the place alone decides what is taken in. -/
theorem exists_step_iff_of_item {u : Unfinished} (hp : u.pending = .item) (t : Token) :
    (∃ v, u.step t = some v) ↔ t.terminal ∈ u.place.follow := by
  constructor
  · rintro ⟨v, hv⟩
    cases takes_of_step hv with
    | selector between kind outside => cases h : u.place <;> simp_all [Place.follow]
    | keyword between kind outside => cases h : u.place <;> simp_all [Place.follow]
    | property between kind inside => cases h : u.place <;> simp_all [Place.follow]
    | skipped between kind inside => cases h : u.place <;> simp_all [Place.follow]
    | closed between kind b outer blocks =>
      have inside : u.place ≠ .sheet := by
        rw [place_ne_sheet_iff]
        simp [atTop, blocks]
      cases h : u.place <;> simp_all [Place.follow]
    | _ => simp_all
  · intro h
    cases hplace : u.place with
    | sheet =>
      simp only [hplace, Place.follow, List.mem_cons, List.not_mem_nil, or_false] at h
      rcases h with kind | kind
      · exact ⟨_, step_of_takes (.selector (.inr hp) kind (by simp [hplace]))⟩
      · exact ⟨_, step_of_takes (.keyword (.inr hp) kind (by simp [hplace]))⟩
    | rule =>
      obtain ⟨b, outer, hb⟩ := exists_blocks (u := u) (by simp [hplace])
      simp only [hplace, Place.follow, List.mem_cons, List.not_mem_nil, or_false] at h
      rcases h with kind | kind | kind
      · exact ⟨_, step_of_takes (.property (.inr hp) kind (by simp [hplace]))⟩
      · exact ⟨_, step_of_takes (.skipped (.inr hp) kind (by simp [hplace]))⟩
      · exact ⟨_, step_of_takes (.closed (.inr hp) kind _ _ hb)⟩
    | block =>
      obtain ⟨b, outer, hb⟩ := exists_blocks (u := u) (by simp [hplace])
      simp only [hplace, Place.follow, List.mem_cons, List.not_mem_nil, or_false] at h
      rcases h with kind | kind | kind | kind | kind
      · exact ⟨_, step_of_takes (.selector (.inr hp) kind (by simp [hplace]))⟩
      · exact ⟨_, step_of_takes (.property (.inr hp) kind (by simp [hplace]))⟩
      · exact ⟨_, step_of_takes (.keyword (.inr hp) kind (by simp [hplace]))⟩
      · exact ⟨_, step_of_takes (.skipped (.inr hp) kind (by simp [hplace]))⟩
      · exact ⟨_, step_of_takes (.closed (.inr hp) kind _ _ hb)⟩

/-- A token of a kind that is tried is refused only behind a whole statement or declaration. -/
theorem pending_of_refused {d : Partial} {u : Unfinished} {t : Token} (hd : d.Describes u)
    (h : t.terminal ∈ u.pending.terminals) (refused : u.step t = none) : u.pending = .item := by
  have hstarted := hd.started
  have hno : ∀ v, ¬ Takes u t v := by
    intro v hv
    rw [step_of_takes hv] at refused
    exact absurd refused (by simp)
  cases hp : u.pending with
  | beginning =>
    rw [hp] at hstarted h
    have hplace : u.place = .sheet := hd.place.trans hstarted.2
    simp only [Pending.terminals, List.mem_cons, List.not_mem_nil, or_false] at h
    rcases h with kind | kind
    · exact absurd (.selector (.inl hp) kind (by simp [hplace])) (hno _)
    · exact absurd (.keyword (.inl hp) kind (by simp [hplace])) (hno _)
  | ruleBody =>
    rw [hp] at hstarted h
    have hplace : u.place = .rule := hd.place.trans hstarted.2
    simp only [Pending.terminals, List.mem_cons, List.not_mem_nil, or_false] at h
    rcases h with kind | kind | kind
    · exact absurd (.property (.inl hp) kind (by simp [hplace])) (hno _)
    · exact absurd (.skipped (.inl hp) kind (by simp [hplace])) (hno _)
    · obtain ⟨b, outer, hb⟩ := exists_blocks (u := u) (by simp [hplace])
      exact absurd (.closed (.inl hp) kind b outer hb) (hno _)
  | item => rfl
  | selector selector source =>
    rw [hp] at h
    exact absurd (.openedRule _ _ hp (by simpa [Pending.terminals] using h)) (hno _)
  | property prop source =>
    rw [hp] at h
    exact absurd (.colon _ _ hp (by simpa [Pending.terminals] using h)) (hno _)
  | value prop source =>
    rw [hp] at h
    exact absurd (.value _ _ hp (by simpa [Pending.terminals] using h)) (hno _)
  | keyword name source =>
    rw [hp] at h
    simp only [Pending.terminals, List.mem_cons, List.not_mem_nil, or_false] at h
    rcases h with kind | kind | kind
    · exact absurd (.params _ _ hp kind) (hno _)
    · exact absurd (.openedBare _ _ hp kind) (hno _)
    · exact absurd (.endedBare _ _ hp kind) (hno _)
  | params name params source =>
    rw [hp] at h
    simp only [Pending.terminals, List.mem_cons, List.not_mem_nil, or_false] at h
    rcases h with kind | kind
    · exact absurd (.opened _ _ _ hp kind) (hno _)
    · exact absurd (.ended _ _ _ hp kind) (hno _)

end Unfinished

namespace Terminal

/-- No token that may follow a value in a rule starts with a quote. -/
theorem not_starts_quote {k : Terminal} {c : Char} (hc : c = '\x22' ∨ c = '\x27')
    (hk : k ∈ Place.rule.follow) : ¬ k.starts c := by
  simp only [Place.follow, List.mem_cons, List.not_mem_nil, or_false] at hk
  rcases hk with rfl | rfl | rfl <;> rcases hc with rfl | rfl <;> simp [starts] <;> decide

/-- A token that stands only in blocks starts like none that may stand between statements, but for
selectors. -/
theorem not_starts_of_inside {t k : Terminal} {c : Char}
    (ht : t = .property ∨ t = .semicolon ∨ t = .closeBrace) (hc : t.starts c)
    (hk : k.isSkipped = true ∨ k = .atKeyword) : ¬ k.starts c := by
  intro hkc
  have hc' : c = '/' ∨ isGap c = true ∨ c = '@' := by
    rcases hk with hk | rfl
    · cases k <;> simp_all [isSkipped, starts]
    · exact .inr (.inr hkc)
  simp only [isGap, Bool.or_eq_true, beq_iff_eq] at hc'
  rcases ht with rfl | rfl | rfl
  · have hname : isNameStart c = true ∨ c = '-' := hc
    rcases hc' with rfl | ((((rfl | rfl) | rfl) | rfl) | rfl) | rfl <;>
      exact absurd hname (by decide)
  · obtain rfl : c = ';' := hc
    exact absurd hc' (by decide)
  · obtain rfl : c = '\x7d' := hc
    exact absurd hc' (by decide)

/-- A selector or an at-keyword behind a value starts with a quote, like no kind that is allowed
there. -/
theorem split?_eq_none_behind_value {t k : Terminal} {c : Char} (cs : List Char)
    (ht : t = .selector ∨ t = .atKeyword) (hc : t.starts c) (hends : endsValue c)
    (hk : k.isSkipped = true ∨ k ∈ Place.rule.follow) : k.split? (c :: cs) = none := by
  have hquote : c = '\x22' ∨ c = '\x27' := by
    rcases ht with rfl | rfl
    · refine hends.resolve_left ?_
      intro hdelim
      exact absurd hc.1 (by simp [isPlain, hdelim])
    · obtain rfl : c = '@' := hc
      exact absurd hends (by simp [endsValue, isDelimiter])
  refine split?_eq_none_of_not_starts ?_ cs
  rcases hk with skipped | hmem
  · exact fun hkc => not_endsValue_of_isSkipped skipped hkc hends
  · exact not_starts_quote hquote hmem

/-- Between statements, what is allowed does not match where a token is found that stands only in
blocks. -/
theorem split?_eq_none_between_statements {t k : Terminal} {allowed : Terminal → Prop}
    {cs lexeme rest : List Char} (ht : t = .property ∨ t = .semicolon ∨ t = .closeBrace)
    (found : Found allowed cs t lexeme rest) (selectors : allowed .selector)
    (hk : k.isSkipped = true ∨ k ∈ Place.sheet.follow) : k.split? cs = none := by
  obtain ⟨c, cs, rfl, hc⟩ := starts_of_split? found.1
  simp only [Place.follow, List.mem_cons, List.not_mem_nil, or_false] at hk
  rcases hk with skipped | rfl | rfl
  · exact split?_eq_none_of_not_starts (not_starts_of_inside ht hc (.inl skipped)) cs
  · -- selectors come first in the order, so one would have been found
    obtain ⟨us, vs, hall⟩ : ∃ us vs, all = (.selector :: us) ++ t :: vs := by
      rcases ht with rfl | rfl | rfl
      · exact ⟨[.value], _, rfl⟩
      · exact ⟨[.value, .property, .atKeyword, .comment, .atParams, .blank, .colon, .openBrace,
          .closeBrace], _, rfl⟩
      · exact ⟨[.value, .property, .atKeyword, .comment, .atParams, .blank, .colon, .openBrace],
          _, rfl⟩
    exact found.2 _ _ _ hall (by simp) selectors
  · exact split?_eq_none_of_not_starts (not_starts_of_inside ht hc (.inr rfl)) cs

end Terminal

namespace Unfinished

/-- **Where a kind matches that the grammar does not allow, no kind matches that it does
allow.** -/
theorem split?_eq_none_of_refused {d : Partial} {u : Unfinished} {cs lexeme rest : List Char}
    {t : Terminal} {here : Position} (hd : d.Describes u) (hfit : u.Fits cs)
    (h : Terminal.first? u.terminals cs = some (t, lexeme, rest)) (counted : t.isSkipped = false)
    (refused : u.step ⟨t, lexeme, here⟩ = none) {k : Terminal}
    (hk : k.isSkipped = true ∨ ∃ w v, w.terminal = k ∧ u.step w = some v) :
    k.split? cs = none := by
  have found := Terminal.found_of_first? h
  have htried : t ∈ u.pending.terminals := by
    have hmem := (Terminal.first?_split? _ _ _ _ _ h).1
    simpa [Terminal.triedWith, counted] using (List.mem_filter.1 hmem).2
  have hp := pending_of_refused hd htried refused
  have hnot : t ∉ u.place.follow := by
    intro hmem
    obtain ⟨v, hv⟩ := (exists_step_iff_of_item hp ⟨t, lexeme, here⟩).2 hmem
    exact absurd (hv.symm.trans refused) (by simp)
  have hk : k.isSkipped = true ∨ k ∈ u.place.follow := by
    refine hk.imp_right ?_
    rintro ⟨w, v, rfl, hv⟩
    exact (exists_step_iff_of_item hp w).1 ⟨v, hv⟩
  have selectors : Terminal.selector ∈ u.pending.terminals := by simp [hp, Pending.terminals]
  rw [hp] at htried
  simp only [Pending.terminals, List.mem_cons, List.not_mem_nil, or_false] at htried
  -- the kinds that are tried but do not stand here are few, and others at each place
  cases hplace : u.place with
  | block => exact absurd (by simpa [hplace, Place.follow] using htried) hnot
  | rule =>
    rw [hplace] at hnot hk
    have ht : t = .selector ∨ t = .atKeyword := by
      rcases htried with rfl | rfl | rfl | rfl | rfl <;> simp [Place.follow] at hnot ⊢
    obtain ⟨c, cs, rfl, hc⟩ := Terminal.starts_of_split? found.1
    exact Terminal.split?_eq_none_behind_value cs ht hc (hfit hp hplace c cs rfl) hk
  | sheet =>
    rw [hplace] at hnot hk
    have ht : t = .property ∨ t = .semicolon ∨ t = .closeBrace := by
      rcases htried with rfl | rfl | rfl | rfl | rfl <;> simp [Place.follow] at hnot ⊢
    exact Terminal.split?_eq_none_between_statements ht found (.inr selectors) hk

end Unfinished

/-! ## Cutting a text -/

/-- Whether a kind is tried behind tokens of the given kinds: it is left out everywhere, or the
grammar allows it there. -/
def Allowed (before : List Terminal) (t : Terminal) : Prop :=
  t.isSkipped = true ∨ CanFollow before t

theorem Terminal.Found.mono {allowed allowed' : Terminal → Prop} {cs lexeme rest : List Char}
    {t : Terminal} (h : Found allowed cs t lexeme rest) (hsub : ∀ u, allowed' u → allowed u) :
    Found allowed' cs t lexeme rest :=
  ⟨h.1, fun us vs u hall hu hu' => h.2 us vs u hall hu (hsub u hu')⟩

namespace Cut

variable {before : List Terminal} {here : Position} {cs lexeme rest : List Char} {t : Terminal}
  {ts : List Token}

theorem exists_found (h : Cut before here cs ts) (hcs : cs ≠ []) :
    ∃ t lexeme rest, Terminal.Found (Allowed before) cs t lexeme rest ∧ Allowed before t := by
  cases h with
  | nil => exact absurd rfl hcs
  | skip _ _ _ t lexeme rest _ skipped found first further =>
    exact ⟨t, lexeme, rest, ⟨found, first⟩, .inl skipped⟩
  | token _ _ _ t lexeme rest _ follows found first further =>
    exact ⟨t, lexeme, rest, ⟨found, first⟩, .inr follows⟩

theorem skip_iff (h : Terminal.Found (Allowed before) cs t lexeme rest)
    (skipped : t.isSkipped = true) :
    Cut before here cs ts ↔ Cut before (here.after lexeme) rest ts := by
  constructor
  · intro hcut
    cases hcut with
    | nil =>
      obtain ⟨c, cs', hcs, -⟩ := Terminal.starts_of_split? h.1
      exact absurd hcs (by simp)
    | skip _ _ _ t' lexeme' rest' _ skipped' found' first' further' =>
      obtain ⟨rfl, rfl, rfl⟩ := h.unique ⟨found', first'⟩ (.inl skipped) (.inl skipped')
      exact further'
    | token _ _ _ t' lexeme' rest' ts' follows' found' first' further' =>
      obtain ⟨rfl, -, -⟩ := h.unique ⟨found', first'⟩ (.inl skipped) (.inr follows')
      exact absurd skipped (by simp [follows'.not_isSkipped])
  · exact Cut.skip before here cs t lexeme rest ts skipped h.1 h.2

theorem token_iff (h : Terminal.Found (Allowed before) cs t lexeme rest)
    (follows : CanFollow before t) :
    Cut before here cs ts ↔ ∃ ts', ts = ⟨t, lexeme, here⟩ :: ts' ∧
      Cut (before ++ [t]) (here.after lexeme) rest ts' := by
  constructor
  · intro hcut
    cases hcut with
    | nil =>
      obtain ⟨c, cs', hcs, -⟩ := Terminal.starts_of_split? h.1
      exact absurd hcs (by simp)
    | skip _ _ _ t' lexeme' rest' _ skipped' found' first' further' =>
      obtain ⟨rfl, -, -⟩ := h.unique ⟨found', first'⟩ (.inr follows) (.inl skipped')
      exact absurd skipped' (by simp [follows.not_isSkipped])
    | token _ _ _ t' lexeme' rest' ts' follows' found' first' further' =>
      obtain ⟨rfl, rfl, rfl⟩ := h.unique ⟨found', first'⟩ (.inr follows) (.inr follows')
      exact ⟨ts', rfl, further'⟩
  · rintro ⟨ts', rfl, further⟩
    exact Cut.token before here cs t lexeme rest ts' follows h.1 h.2 further

/-- A text is cut in one way. -/
theorem unique {ts' : List Token} (h : Cut before here cs ts) (h' : Cut before here cs ts') :
    ts = ts' := by
  induction h generalizing ts' with
  | nil before here =>
    cases h' with
    | nil => rfl
    | skip _ _ _ t lexeme rest _ skipped found =>
      obtain ⟨c, cs', hcs, -⟩ := Terminal.starts_of_split? found
      exact absurd hcs (by simp)
    | token _ _ _ t lexeme rest _ follows found =>
      obtain ⟨c, cs', hcs, -⟩ := Terminal.starts_of_split? found
      exact absurd hcs (by simp)
  | skip before here cs t lexeme rest ts skipped found first further ih =>
    exact ih ((skip_iff ⟨found, first⟩ skipped).1 h')
  | token before here cs t lexeme rest ts follows found first further ih =>
    obtain ⟨ts'', rfl, hrest⟩ := (token_iff ⟨found, first⟩ follows).1 h'
    rw [ih hrest]

end Cut

namespace Unfinished

/-- Whatever the grammar allows behind the tokens taken in is tried. -/
theorem mem_tried_of_allowed {u : Unfinished} {ts : List Token} (hts : empty.steps ts = some u)
    {k : Terminal} (hk : Allowed (ts.map (·.terminal)) k) :
    k.isSkipped = true ∨ k ∈ u.pending.terminals := by
  refine hk.imp_right ?_
  intro follows
  obtain ⟨v, hv⟩ := (canFollow_iff hts k.bare).1 follows
  exact mem_terminals_of_step hv

/-- The token that is found is the one that the grammar finds. -/
theorem found_of_read {u : Unfinished} {ts : List Token} (hts : empty.steps ts = some u)
    {cs lexeme rest : List Char} {t : Terminal}
    (h : Terminal.first? u.terminals cs = some (t, lexeme, rest)) :
    Terminal.Found (Allowed (ts.map (·.terminal))) cs t lexeme rest :=
  (Terminal.found_of_first? h).mono fun _ => mem_tried_of_allowed hts

/-- **Reading the rest of a text succeeds exactly if it can be cut into tokens that are taken in up
to the end of the sheet.** -/
theorem read_eq_ok_iff (u : Unfinished) (here last : Position) (cs : List Char)
    (nodes : List Node) (ts : List Token) (hts : empty.steps ts = some u) (hfit : u.Fits cs) :
    u.read here last cs = .ok nodes ↔
      ∃ ts', Cut (ts.map (·.terminal)) here cs ts' ∧
        ∃ v, u.steps ts' = some v ∧ v.finish? = some nodes := by
  fun_induction Unfinished.read u here last cs generalizing ts with
  | case1 u here last cs hcs found hf =>
    obtain rfl := List.isEmpty_iff.1 hcs
    constructor
    · intro h
      obtain rfl := Except.ok.inj h
      exact ⟨[], .nil _ _, u, rfl, hf⟩
    · rintro ⟨ts', hcut, v, hv, hn⟩
      obtain rfl := hcut.unique (.nil _ _)
      obtain rfl := Option.some.inj hv
      rw [Option.some.inj (hf.symm.trans hn)]
  | case2 u here last cs hcs hf =>
    obtain rfl := List.isEmpty_iff.1 hcs
    refine iff_of_false (by simp) ?_
    rintro ⟨ts', hcut, v, hv, hn⟩
    obtain rfl := hcut.unique (.nil _ _)
    obtain rfl := Option.some.inj hv
    exact absurd hn (by simp [hf])
  | case3 u here last cs hcs hnone =>
    refine iff_of_false (by simp) ?_
    rintro ⟨ts', hcut, -⟩
    -- whatever the cut finds here would have been tried and found
    obtain ⟨k, lexeme, rest, found, hk⟩ := hcut.exists_found (by simpa using hcs)
    have htried : k ∈ u.terminals := List.mem_filter.2
      ⟨by cases k <;> decide, by simpa using mem_tried_of_allowed hts hk⟩
    exact absurd found.1 (by simp [(Terminal.first?_eq_none_iff _ _).1 hnone k htried])
  | case4 u here last cs hcs t lexeme rest hfirst skipped ih =>
    rw [ih ts hts (fits_of_skipped hfit skipped (Terminal.first?_split? _ _ _ _ _ hfirst).2)]
    simp only [Cut.skip_iff (found_of_read hts hfirst) skipped]
  | case5 u here last cs hcs t lexeme rest hfirst counted refused =>
    refine iff_of_false (by simp) ?_
    rintro ⟨ts', hcut, -⟩
    obtain ⟨d, hd, -⟩ := Partial.exists_describes hts
    obtain ⟨k, lexeme', rest', found, hk⟩ := hcut.exists_found (by simpa using hcs)
    have hallowed : k.isSkipped = true ∨ ∃ w v, w.terminal = k ∧ u.step w = some v := by
      refine hk.imp_right ?_
      intro follows
      obtain ⟨v, hv⟩ := (canFollow_iff hts k.bare).1 follows
      exact ⟨k.bare, v, rfl, hv⟩
    -- the cut finds an allowed kind here, the reader one that is refused
    have hnone := split?_eq_none_of_refused hd hfit hfirst (by simpa using counted) refused hallowed
    exact absurd found.1 (by simp [hnone])
  | case6 u here last cs hcs t lexeme rest hfirst counted next hstep ih =>
    have hsplit := (Terminal.first?_split? _ _ _ _ _ hfirst).2
    obtain ⟨d, hd, -⟩ := Partial.exists_describes hts
    have hsteps : empty.steps (ts ++ [⟨t, lexeme, here⟩]) = some next := by
      rw [steps_append, hts, Option.bind_some, steps, hstep]
      rfl
    have follows : CanFollow (ts.map (·.terminal)) t :=
      (canFollow_iff hts ⟨t, lexeme, here⟩).2 ⟨next, hstep⟩
    rw [ih _ hsteps (fits_of_step hd hstep hsplit)]
    simp only [List.map_append, List.map_cons, List.map_nil]
    constructor
    · rintro ⟨ts', hcut, v, hv, hn⟩
      refine ⟨⟨t, lexeme, here⟩ :: ts', ?_, v, ?_, hn⟩
      · exact (Cut.token_iff (found_of_read hts hfirst) follows).2 ⟨ts', rfl, hcut⟩
      · rw [steps, hstep, Option.bind_some, hv]
    · rintro ⟨ts', hcut, v, hv, hn⟩
      obtain ⟨ts'', rfl, hcut'⟩ := (Cut.token_iff (found_of_read hts hfirst) follows).1 hcut
      rw [steps, hstep, Option.bind_some] at hv
      exact ⟨ts'', hcut', v, hv, hn⟩

end Unfinished

/-! ## Accepted texts -/

/-- A text has one derivation at most. -/
theorem IsDerivation.unique {css : List Char} {ps qs : List Phrase} (h : IsDerivation css ps)
    (h' : IsDerivation css qs) : ps = qs := by
  have htokens : Phrase.tokensAll ps ++ [] = Phrase.tokensAll qs ++ [] := by
    rw [h.2.unique h'.2]
  exact (Phrase.tokensAll_injective ps qs .sheet [] [] h.1 h'.1 trivial trivial htokens).1

/-- The statements of a text are read exactly if the text is a sheet with these statements. -/
theorem parseNodes_eq_ok_iff (css : List Char) (nodes : List Node) :
    Sheet.parseNodes css = .ok nodes ↔ IsSheet css nodes := by
  rw [Sheet.parseNodes, Unfinished.read_eq_ok_iff _ _ _ _ _ [] rfl (by intro h; exact absurd h nofun)]
  constructor
  · rintro ⟨ts, hcut, hsteps⟩
    obtain ⟨ps, valid, rfl, hn⟩ := (Unfinished.steps_finish_iff ts nodes).1 hsteps
    exact ⟨ps, ⟨valid, hcut⟩, hn⟩
  · rintro ⟨ps, ⟨valid, hcut⟩, hn⟩
    exact ⟨_, hcut, (Unfinished.steps_finish_iff _ nodes).2 ⟨ps, valid, rfl, hn⟩⟩

/-- A sheet is read from a text exactly if its statements are. -/
theorem parse_eq_ok_iff (css : String) (name : Option String) (sheet : Sheet) :
    Sheet.parse css name = .ok sheet ↔
      Sheet.parseNodes css.toList = .ok sheet.nodes ∧ sheet.input = some css ∧
        sheet.name = name := by
  obtain ⟨nodes, input, name'⟩ := sheet
  unfold Sheet.parse
  split
  · next hn =>
    rw [hn]
    simp only [Except.ok.injEq, Sheet.mk.injEq]
    grind
  · next hn => simp [hn]

/-- **The reader accepts exactly the grammar**: it gives a sheet exactly if the sheet is the one
that the grammar derives from the text, and the grammar derives a text in one way at most. -/
theorem parse_eq_ok_iff_isSheet (css : String) (name : Option String) :
    (∀ sheet, Sheet.parse css name = .ok sheet ↔
      sheet.input = some css ∧ sheet.name = name ∧ IsSheet css.toList sheet.nodes) ∧
      ∀ ps qs, IsDerivation css.toList ps → IsDerivation css.toList qs → ps = qs := by
  refine ⟨fun sheet => ?_, fun ps qs h h' => h.unique h'⟩
  rw [parse_eq_ok_iff, parseNodes_eq_ok_iff, and_comm, and_assoc]

end FluidCss
