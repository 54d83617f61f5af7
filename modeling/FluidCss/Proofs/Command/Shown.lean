import FluidCss.Command.Run
import FluidCss.Proofs.Sizing.Copying

set_option autoImplicit false

/-! # What is shown of lines

Lines are shown without control sequences. No sequence runs over the end of a line, so each line is
shown on its own (`plain_textLines`), and so is the value within the line of a declaration that has
been put in the place of a fluid one (`Interpolation.IsLine.plain_eq`).

A printed sheet is a text of lines (`Node.toCss_eq_textLines`), among which the lines of those
declarations stand in order (`Sheet.areAmong_of_expanded`). -/

namespace FluidCss

namespace Text

variable {a b s cs : List Char}

/-! ## Control sequences at the seam of two texts -/

/-- Whether no control sequence runs from a text into another: the first character of the latter
cannot go on with one, for it is not of its kind or is a parameter behind an intermediate
character. -/
def SequencesEnd (a b : List Char) : Prop :=
  ∀ d ∈ b.head?, isIntermediate d = false ∧ isFinal d = false ∧
    (isParameter d = true → ∃ c ∈ a.getLast?, isIntermediate c = true)

theorem dropWhile_eq_self {p : Char → Bool} (h : ∀ d ∈ b.head?, p d = false) :
    b.dropWhile p = b := by
  cases b with
  | nil => rfl
  | cons d b => rw [List.dropWhile_cons_of_neg (by simp [h d rfl])]

theorem not_isIntermediate_of_isParameter {c : Char} (h : isParameter c = true) :
    isIntermediate c = false := by
  simp only [isParameter, isIntermediate, Bool.and_eq_true, Bool.and_eq_false_iff,
    decide_eq_true_eq, decide_eq_false_iff_not, Char.le_def, UInt32.le_iff_toNat_le] at h ⊢
  have hzero : '0'.val.toNat = 48 := rfl
  have hslash : '/'.val.toNat = 47 := rfl
  omega

/-- What is left behind the parameters and intermediate characters. -/
theorem dropWhile_dropWhile_append (h : SequencesEnd ('[' :: cs) b) :
    ((cs ++ b).dropWhile isParameter).dropWhile isIntermediate =
      (cs.dropWhile isParameter).dropWhile isIntermediate ++ b := by
  have hinter : b.dropWhile isIntermediate = b := dropWhile_eq_self fun d hd => (h d hd).1
  rw [List.dropWhile_append]
  split
  · next hall =>
    rw [List.isEmpty_iff, List.dropWhile_eq_nil_iff] at hall
    -- behind parameters there may not stand another one
    have hparam : b.dropWhile isParameter = b := by
      refine dropWhile_eq_self fun d hd => ?_
      rw [Bool.eq_false_iff]
      intro hd'
      obtain ⟨c, hc, hc'⟩ := (h d hd).2.2 hd'
      rcases List.mem_cons.1 (List.mem_of_mem_getLast? hc) with rfl | hmem
      · exact absurd hc' (by decide)
      · exact absurd hc' (by simp [not_isIntermediate_of_isParameter (hall c hmem)])
    rw [hparam, hinter, List.dropWhile_eq_nil_iff.2 hall]
    rfl
  · rw [List.dropWhile_append, hinter]
    split
    · next hall => rw [List.isEmpty_iff.1 hall, List.nil_append]
    · rfl

/-- A sequence in front is the same one in front of another text. -/
theorem afterSequence?_append (hs : s ≠ []) (h : SequencesEnd s b) :
    afterSequence? (s ++ b) = (afterSequence? s).map (· ++ b) := by
  match s, hs with
  | [c], _ =>
    cases b with
    | nil => simp [afterSequence?]
    | cons d b =>
      have hd : d ≠ '[' := by
        rintro rfl
        exact absurd (h '[' rfl).2.1 (by decide)
      simp [afterSequence?, hd]
  | c :: d :: cs, _ =>
    by_cases hstart : c = '\x1b' ∧ d = '['
    · obtain ⟨rfl, rfl⟩ := hstart
      have hbehind := dropWhile_dropWhile_append
        (show SequencesEnd ('[' :: cs) b by simpa [SequencesEnd, List.getLast?_cons_cons] using h)
      rw [List.cons_append, List.cons_append]
      simp only [afterSequence?]
      rw [hbehind]
      cases hleft : (cs.dropWhile isParameter).dropWhile isIntermediate with
      | nil =>
        cases b with
        | nil => rfl
        | cons d b => simp [(h d rfl).2.1]
      | cons c rest =>
        rw [List.cons_append]
        dsimp only
        split <;> rfl
    · have hnone : ∀ cs, afterSequence? (c :: d :: cs) = none := by
        intro cs
        unfold afterSequence?
        split
        · next heq =>
          obtain ⟨hc, heq⟩ := List.cons.inj heq
          exact absurd ⟨hc, (List.cons.inj heq).1⟩ hstart
        · rfl
      rw [List.cons_append, List.cons_append, hnone, hnone]
      rfl

theorem dropSequences_of_some (h : afterSequence? a = some b) :
    dropSequences a = dropSequences b := by
  rw [dropSequences.eq_def]
  split
  · next rest hrest => rw [Option.some.inj (h.symm.trans hrest)]
  · next hnone => exact absurd (h.symm.trans hnone) (by simp)

theorem dropSequences_cons_of_none {c : Char} (h : afterSequence? (c :: a) = none) :
    dropSequences (c :: a) = c :: dropSequences a := by
  rw [dropSequences.eq_def]
  split
  · next rest hrest => exact absurd (hrest.symm.trans h) (by simp)
  · rfl

theorem suffix_of_afterSequence? (h : afterSequence? a = some s) : s <:+ a := by
  unfold afterSequence? at h
  split at h
  · next cs =>
    split at h
    · exact absurd h (by simp)
    · next c rest hrest =>
      split at h
      · obtain rfl := Option.some.inj h
        have hsuffix : c :: rest <:+ cs :=
          hrest ▸ (List.dropWhile_suffix _).trans (List.dropWhile_suffix _)
        exact (List.suffix_cons c rest).trans (hsuffix.trans ⟨['\x1b', '['], rfl⟩)
      · exact absurd h (by simp)
  · exact absurd h (by simp)

/-- Texts between which no sequence runs are shown each on its own. -/
theorem dropSequences_append (h : a ≠ [] → SequencesEnd a b) :
    dropSequences (a ++ b) = dropSequences a ++ dropSequences b := by
  -- what is left of the first text has the end of it
  have hrest : ∀ rest, rest <:+ a → rest ≠ [] → SequencesEnd rest b := by
    rintro rest ⟨front, rfl⟩ hne d hd
    obtain ⟨hinter, hfinal, hparam⟩ := h (by simp [hne]) d hd
    rw [List.getLast?_append_of_ne_nil _ hne] at hparam
    exact ⟨hinter, hfinal, hparam⟩
  fun_induction dropSequences a with
  | case1 a rest hsome ih =>
    have hne : a ≠ [] := by
      rintro rfl
      exact absurd hsome (by simp [afterSequence?])
    have hsuffix := suffix_of_afterSequence? hsome
    have hsome' : afterSequence? (a ++ b) = some (rest ++ b) := by
      rw [afterSequence?_append hne (h hne), hsome]
      rfl
    rw [dropSequences_of_some hsome']
    exact ih (hrest rest hsuffix) fun k hk => hrest k (hk.trans hsuffix)
  | case2 => rfl
  | case3 c rest hnone ih =>
    have hsuffix := List.suffix_cons c rest
    have hnone' : afterSequence? (c :: (rest ++ b)) = none := by
      rw [← List.cons_append, afterSequence?_append (by simp) (h (by simp)), hnone]
      rfl
    rw [List.cons_append, dropSequences_cons_of_none hnone', List.cons_append,
      ih (hrest rest hsuffix) fun k hk => hrest k (hk.trans hsuffix)]

/-- What has no escape character is shown as it is, whatever follows. -/
theorem dropSequences_append_of_not_mem (h : '\x1b' ∉ a) :
    dropSequences (a ++ b) = a ++ dropSequences b := by
  induction a with
  | nil => rfl
  | cons c a ih =>
    obtain ⟨hc, ha⟩ := not_or.1 (List.mem_cons.not.1 h)
    have hnone : afterSequence? (c :: (a ++ b)) = none := by
      unfold afterSequence?
      split
      · next heq => exact absurd (List.cons.inj heq).1.symm hc
      · rfl
    rw [List.cons_append, dropSequences_cons_of_none hnone, ih ha, List.cons_append]

theorem plain_append {s t : String} (h : s.toList ≠ [] → SequencesEnd s.toList t.toList) :
    plain (s ++ t) = plain s ++ plain t := by
  rw [plain, String.toList_append, dropSequences_append h, String.ofList_append, plain, plain]

theorem plain_append_of_not_mem {s : String} (t : String) (h : '\x1b' ∉ s.toList) :
    plain (s ++ t) = s ++ plain t := by
  rw [plain, String.toList_append, dropSequences_append_of_not_mem h, String.ofList_append,
    String.ofList_toList, plain]

theorem plain_eq_self {s : String} (h : '\x1b' ∉ s.toList) : plain s = s := by
  rw [plain, dropSequences_eq_self _ h, String.ofList_toList]

end Text

open Text

/-! ## Lines -/

@[simp] theorem textLines_nil : textLines [] = "" := rfl

theorem textLines_cons (l : String) (ls : List String) :
    textLines (l :: ls) = l ++ ("\n" ++ textLines ls) := by
  rw [textLines, List.map_cons, String.join_cons, String.append_assoc]
  rfl

theorem textLines_append (ls ms : List String) :
    textLines (ls ++ ms) = textLines ls ++ textLines ms := by
  rw [textLines, List.map_append, String.join_append]
  rfl

/-- **Lines are shown one by one.** -/
theorem plain_textLines (ls : List String) :
    Text.plain (textLines ls) = textLines (ls.map Text.plain) := by
  induction ls with
  | nil => exact plain_eq_self (by decide)
  | cons l ls ih =>
    have hseam : l.toList ≠ [] → SequencesEnd l.toList ("\n" ++ textLines ls).toList := by
      intro _ d hd
      obtain rfl : d = '\n' := by simpa using hd.symm
      exact ⟨rfl, rfl, fun h => absurd h (by decide)⟩
    rw [textLines_cons, plain_append hseam, plain_append_of_not_mem _ (by decide), ih,
      List.map_cons, textLines_cons]

namespace Node

mutual

/-- The lines of a node at a nesting depth. -/
def printed (depth : Nat) : Node → List String
  | declaration prop value _ => [String.ofList (indentation depth) ++ prop ++ ": " ++ value ++ ";"]
  | rule selector _ nodes =>
    (String.ofList (indentation depth) ++ selector ++ " \x7b") ::
      (printedAll (depth + 1) nodes ++ [String.ofList (indentation depth) ++ "\x7d"])
  | atStatement name params _ => [String.ofList (indentation depth ++ atHeader name params) ++ ";"]
  | atBlock name params _ nodes =>
    (String.ofList (indentation depth ++ atHeader name params) ++ " \x7b") ::
      (printedAll (depth + 1) nodes ++ [String.ofList (indentation depth) ++ "\x7d"])

/-- The lines of the nodes of a block. -/
def printedAll (depth : Nat) : List Node → List String
  | [] => []
  | n :: ns => n.printed depth ++ printedAll depth ns

end

/-- The lines of statements, with an empty one between each two. -/
def printedSheet : List Node → List String
  | [] => []
  | [n] => n.printed 0
  | n :: ns => n.printed 0 ++ "" :: printedSheet ns

mutual

theorem toList_textLines_printed (depth : Nat) :
    ∀ n : Node, (textLines (n.printed depth)).toList = n.text depth ++ ['\n']
  | declaration prop value source => by simp [printed, text, textLines_cons]
  | rule selector source nodes => by
    simp [printed, text, textLines_cons, textLines_append,
      toList_textLines_printedAll (depth + 1) nodes]
  | atStatement name params source => by simp [printed, text, textLines_cons]
  | atBlock name params source nodes => by
    simp [printed, text, textLines_cons, textLines_append,
      toList_textLines_printedAll (depth + 1) nodes]

theorem toList_textLines_printedAll (depth : Nat) :
    ∀ ns : List Node, (textLines (printedAll depth ns)).toList = lines depth ns
  | [] => rfl
  | n :: ns => by
    rw [printedAll, textLines_append, String.toList_append, toList_textLines_printed depth n,
      toList_textLines_printedAll depth ns, lines, List.append_assoc]
    rfl

end

/-- **A printed sheet is a text of lines.** -/
theorem toCss_eq_textLines (nodes : List Node) : toCss nodes = textLines (printedSheet nodes) := by
  refine String.toList_injective ?_
  rw [toCss, String.toList_ofList]
  fun_induction sheetText nodes with
  | case1 => rfl
  | case2 n => rw [printedSheet, toList_textLines_printed]
  | case3 n ns hne ih =>
    rw [printedSheet, textLines_append, textLines_cons, String.toList_append,
      toList_textLines_printed, ih]
    · simp
    · exact hne

end Node

/-! ## The lines of what has been expanded -/

namespace Interpolation

/-- Whether a line is that of the declaration that takes the place of a fluid one. -/
def IsLine (i : Interpolation) (line : String) : Prop :=
  ∃ (depth : Nat) (p : Property), i.prop = p.name ∧
    line = String.ofList (indentation depth) ++ i.prop ++ ": " ++ i.expression ++ ";"

/-- Whether the lines of interpolations stand among others, in order. -/
def AreAmong (outputs : List Interpolation) (lines : List String) : Prop :=
  ∃ written, List.Forall₂ IsLine outputs written ∧ written.Sublist lines

namespace AreAmong

variable {outputs outputs' : List Interpolation} {lines lines' : List String}

theorem nil (lines : List String) : AreAmong [] lines := ⟨[], .nil, List.nil_sublist _⟩

theorem mono (h : AreAmong outputs lines) (hsub : lines.Sublist lines') :
    AreAmong outputs lines' := by
  obtain ⟨written, hall, hwritten⟩ := h
  exact ⟨written, hall, hwritten.trans hsub⟩

theorem append (h : AreAmong outputs lines) (h' : AreAmong outputs' lines') :
    AreAmong (outputs ++ outputs') (lines ++ lines') := by
  obtain ⟨written, hall, hwritten⟩ := h
  obtain ⟨written', hall', hwritten'⟩ := h'
  exact ⟨written ++ written', List.rel_append hall hall', hwritten.append hwritten'⟩

theorem cons {i : Interpolation} {line : String} (hi : i.IsLine line)
    (h : AreAmong outputs lines) : AreAmong (i :: outputs) (line :: lines) := by
  obtain ⟨written, hall, hwritten⟩ := h
  exact ⟨line :: written, .cons hi hall, hwritten.cons_cons line⟩

end AreAmong

end Interpolation

namespace Node

open Interpolation

theorem printedAll_append (depth : Nat) (ns ms : List Node) :
    printedAll depth (ns ++ ms) = printedAll depth ns ++ printedAll depth ms := by
  induction ns with
  | nil => rfl
  | cons n ns ih => rw [List.cons_append, printedAll, ih, printedAll, List.append_assoc]

/-- Within a rule, each interpolation is printed in the place of its declaration. -/
theorem areAmong_expandedInRule {all ns inside : List Node}
    {make : Property → Reporting Interpolation} {outputs : List Interpolation} {r r' : Report}
    (hmake : ∀ {p i r r'}, make p r = .ok i r' → i.prop = p.name)
    (h : expandedInRule all make ns r = .ok (outputs, inside) r') (depth : Nat) :
    AreAmong outputs (printedAll depth inside) := by
  induction ns generalizing outputs inside r r' with
  | nil =>
    obtain ⟨heq, -⟩ := pure_eq_ok_iff.1 h
    obtain ⟨rfl, rfl⟩ := Prod.mk.inj heq
    exact .nil _
  | cons n ns ih =>
    rw [expandedInRule] at h
    cases hn : n.fluidProperty? with
    | none =>
      rw [hn] at h
      dsimp only at h
      split at h
      · exact ih h
      · obtain ⟨⟨rest, others⟩, r₁, hrest, h⟩ := bind_eq_ok_iff.1 h
        obtain ⟨heq, -⟩ := pure_eq_ok_iff.1 h
        obtain ⟨rfl, rfl⟩ := Prod.mk.inj heq
        exact (ih hrest).mono (List.sublist_append_right ..)
    | some p =>
      rw [hn] at h
      dsimp only at h
      split at h
      · exact ih h
      · obtain ⟨i, r₁, hi, h⟩ := bind_eq_ok_iff.1 h
        obtain ⟨⟨rest, others⟩, r₂, hrest, h⟩ := bind_eq_ok_iff.1 h
        obtain ⟨heq, -⟩ := pure_eq_ok_iff.1 h
        obtain ⟨rfl, rfl⟩ := Prod.mk.inj heq
        -- the line of the custom property comes between this one and those of the rest
        exact .cons ⟨depth, p, hmake hi, rfl⟩ ((ih hrest).mono (List.sublist_cons_self ..))

variable {options : Options} {input name : Option String}

theorem interpolate_prop {site : Site} {size : String} {nodes : List Node} {p : Property}
    {i : Interpolation} {r r' : Report}
    (h : interpolate options site size nodes p r = .ok i r') : i.prop = p.name := by
  obtain ⟨_, r₁, -, hbuild⟩ := bind_eq_ok_iff.1 h
  obtain ⟨scaled, r₂, -, rfl⟩ := Interpolation.build_ok hbuild
  rfl

mutual

/-- The interpolations of a node are printed in order. -/
theorem areAmong_expanded (t : Node) {size : String} {r r' : Report} {ex : Expanded}
    (h : t.expanded options input name size r = .ok ex r') (depth : Nat) :
    AreAmong ex.outputs (printedAll depth ex.nodes) := by
  cases t with
  | declaration prop value source =>
    obtain ⟨rfl, -⟩ := pure_eq_ok_iff.1 h
    exact .nil _
  | rule selector source nodes =>
    rw [expanded] at h
    dsimp only at h
    obtain ⟨r₁, -, h⟩ := ite_bind_eq_ok_iff.1 h
    obtain ⟨⟨outputs, inside⟩, r₂, hinside, h⟩ := bind_eq_ok_iff.1 h
    obtain ⟨rfl, -⟩ := pure_eq_ok_iff.1 h
    have hamong := areAmong_expandedInRule interpolate_prop hinside (depth + 1)
    refine hamong.mono (.trans ?_ (List.sublist_append_left ..))
    exact (List.sublist_append_left ..).trans (List.sublist_cons_self ..)
  | atStatement atName params source =>
    obtain ⟨rfl, -⟩ := pure_eq_ok_iff.1 h
    exact .nil _
  | atBlock atName params source nodes =>
    obtain ⟨inside, r₁, hinside, h⟩ := bind_eq_ok_iff.1 h
    obtain ⟨rfl, -⟩ := pure_eq_ok_iff.1 h
    refine (areAmong_expandedAll nodes hinside (depth + 1)).mono ?_
    refine .trans ?_ (List.sublist_append_left ..)
    exact (List.sublist_append_left ..).trans (List.sublist_cons_self ..)

/-- The interpolations of nodes that follow each other are printed in order. -/
theorem areAmong_expandedAll (ts : List Node) {size : String} {r r' : Report} {ex : Expanded}
    (h : expandedAll options input name size ts r = .ok ex r') (depth : Nat) :
    AreAmong ex.outputs (printedAll depth ex.nodes) := by
  cases ts with
  | nil =>
    obtain ⟨rfl, -⟩ := pure_eq_ok_iff.1 h
    exact .nil _
  | cons t ts =>
    obtain ⟨first, r₁, hfirst, h⟩ := bind_eq_ok_iff.1 h
    obtain ⟨rest, r₂, hrest, h⟩ := bind_eq_ok_iff.1 h
    obtain ⟨rfl, -⟩ := pure_eq_ok_iff.1 h
    rw [printedAll_append]
    exact (areAmong_expanded t hfirst depth).append (areAmong_expandedAll ts hrest depth)

end

theorem sublist_printedSheet (nodes : List Node) :
    (printedAll 0 nodes).Sublist (printedSheet nodes) := by
  fun_induction printedSheet nodes with
  | case1 => exact .slnil
  | case2 n => rw [printedAll, printedAll, List.append_nil]
  | case3 n ns hne ih => exact (List.Sublist.refl _).append (ih.cons "")

end Node

/-- **The declarations in the place of fluid ones are printed in order.** -/
theorem Sheet.areAmong_of_expanded {sheet : Sheet} {options : Options} {ex : Expanded}
    {r r' : Report} (h : sheet.expanded options r = .ok ex r') :
    Interpolation.AreAmong ex.outputs (Node.printedSheet ex.nodes) :=
  (Node.areAmong_expandedAll sheet.nodes h 0).mono (Node.sublist_printedSheet ex.nodes)

theorem Bounds.getLast?_expression (b : Bounds) : b.expression.toList.getLast? = some ')' := by
  have hending : b.ending =
      [' ', '/', ' '] ++ b.widthDifference.toText.toList ++ [')'] ++ [')'] := by
    simp [ending]
  have hexpression : b.expression.toList = (['c', 'a', 'l', 'c'] ++ '(' :: (b.minSize.toList ++
      ' ' :: (b.middle ++ ' ' :: (b.minWidth.toList ++ [')'])))) ++ b.ending := by
    simp [toList_expression]
  rw [hexpression, hending, List.getLast?_append_of_ne_nil _ (by simp), List.getLast?_concat]

/-- In the line of a declaration in the place of a fluid one, the value is shown on its own. -/
theorem Interpolation.IsLine.plain_eq {i : Interpolation} {line : String} (h : i.IsLine line) :
    ∃ depth, Text.plain line = String.ofList (indentation depth) ++ i.prop ++ ": " ++
      Text.plain i.expression ++ ";" := by
  obtain ⟨depth, p, hprop, rfl⟩ := h
  have hfront : '\x1b' ∉ (String.ofList (indentation depth) ++ i.prop ++ ": ").toList := by
    have hp : '\x1b' ∉ p.name.toList := by cases p <;> decide
    simp [hprop, hp, indentation]
  have hseam : i.expression.toList ≠ [] → SequencesEnd i.expression.toList ";".toList := by
    intro _ d hd
    obtain rfl := Option.some.inj hd
    exact ⟨rfl, rfl, fun _ => ⟨')', i.scaled.getLast?_expression, rfl⟩⟩
  have hsemicolon : Text.plain ";" = ";" := plain_eq_self (by decide)
  refine ⟨depth, ?_⟩
  rw [String.append_assoc, plain_append_of_not_mem _ hfront, plain_append hseam, hsemicolon,
    ← String.append_assoc]

end FluidCss
