import FluidCss.Proofs.Grammar.Closed
import FluidCss.Proofs.Grammar.Formatting
import FluidCss.Proofs.Sizing.Refusals

set_option autoImplicit false

/-! # What is put into a sheet

What takes the place of a fluid declaration has copies of the bounds in it. If these can be copied
(`Bounds.IsCopyable`), it is printed so that it is read back and asks for no fluid size, and so is a
whole sheet that has been expanded. -/

namespace FluidCss

open Number

/-! ## The word that asks for a fluid size -/

/-- The word by which a value asks for a fluid size. -/
def fluidWord : List Char := ['f', 'l', 'u', 'i', 'd']

theorem contains_fluid_eq_false_iff (s : String) :
    Text.contains s "fluid" = false ↔ ¬ fluidWord <:+: s.toList := by
  rw [Text.contains, Bool.eq_false_iff, Ne, Text.occurs_iff]
  rfl

theorem not_fluidWord_infix_of_not_mem {cs : List Char} (h : 'u' ∉ cs) : ¬ fluidWord <:+: cs :=
  fun hwithin => h (hwithin.subset (by decide))

/-- A character that is not in the word keeps the word out if it is on neither side. -/
theorem not_fluidWord_infix_append_cons {c : Char} {as bs : List Char} (hc : c ∉ fluidWord)
    (has : ¬ fluidWord <:+: as) (hbs : ¬ fluidWord <:+: bs) : ¬ fluidWord <:+: as ++ c :: bs :=
  fun h => (infix_of_infix_append_cons (by decide) hc h).elim has hbs

/-! ## Numerals -/

theorem isOrdinary_of_isNumeralChar {c : Char} (h : isNumeralChar c = true) :
    Terminal.isOrdinary c = true := by
  rw [isNumeralChar, Bool.or_eq_true, List.contains_iff_mem] at h
  rcases h with h | h
  · have hne : ∀ d : Char, d.isDigit = false → c ≠ d := by
      rintro d hd rfl
      exact absurd h (by simp [hd])
    simp [Terminal.isOrdinary, Terminal.isDelimiter, hne '\x7b' rfl, hne '\x7d' rfl, hne ';' rfl,
      hne '\x22' rfl, hne '\x27' rfl, hne 'u' rfl, hne 'U' rfl]
  · exact List.all_eq_true.1 (by decide) c h

theorem all_isOrdinary_toText (x : Binary64) : x.toText.toList.all Terminal.isOrdinary = true := by
  rw [Binary64.toText, String.toList_ofList]
  exact List.all_eq_true.2 fun c hc =>
    isOrdinary_of_isNumeralChar (List.all_eq_true.1 x.all_isNumeralChar_text c hc)

theorem not_mem_of_all_isOrdinary {cs : List Char} (h : cs.all Terminal.isOrdinary = true) :
    'u' ∉ cs :=
  fun hmem => absurd (List.all_eq_true.1 h 'u' hmem) (by decide)

/-! ## The expression -/

namespace Bounds

instance (b : Bounds) : Decidable b.IsCopyable :=
  decidable_of_iff ((IsValueText b.minSize.toList ∧ IsValueText b.maxSize.toList) ∧
      (Text.contains b.minSize "fluid" = false ∧ Text.contains b.maxSize "fluid" = false) ∧
      (b.minWidth.toList.all Terminal.isPlain = true ∧
        b.maxWidth.toList.all Terminal.isPlain = true) ∧
      (b.convertsWidths = false → IsValueText ('(' :: (b.minWidth.toList ++ [')']))) ∧
      (b.convertsWidths = false → Text.contains b.minWidth "fluid" = false))
    ⟨fun ⟨⟨h₁, h₂⟩, ⟨h₃, h₄⟩, ⟨h₅, h₆⟩, h₇, h₈⟩ => ⟨h₁, h₂, h₃, h₄, h₅, h₆, h₇, h₈⟩,
      fun ⟨h₁, h₂, h₃, h₄, h₅, h₆, h₇, h₈⟩ => ⟨⟨h₁, h₂⟩, ⟨h₃, h₄⟩, ⟨h₅, h₆⟩, h₇, h₈⟩⟩

/-- What stands between the smaller size and the smaller width in the expression. -/
def middle (b : Bounds) : List Char :=
  ['+', ' '] ++ b.sizeDifference.toText.toList ++ " * ((100vw -".toList

/-- What stands behind the parenthesis behind the smaller width in the expression. -/
def ending (b : Bounds) : List Char :=
  [' ', '/', ' '] ++ b.widthDifference.toText.toList ++ [')', ')']

theorem toList_expression (b : Bounds) :
    b.expression.toList = ['c', 'a', 'l', 'c'] ++ '(' :: (b.minSize.toList ++
      ' ' :: (b.middle ++ ' ' :: (b.minWidth.toList ++ ')' :: b.ending))) := by
  simp [expression, middle, ending]

theorem all_isOrdinary_middle (b : Bounds) : b.middle.all Terminal.isOrdinary = true := by
  rw [middle, List.all_append, List.all_append, all_isOrdinary_toText]
  decide

theorem all_isOrdinary_ending (b : Bounds) : b.ending.all Terminal.isOrdinary = true := by
  rw [ending, List.all_append, List.all_append, all_isOrdinary_toText]
  rfl

/-- **The expression is a value** if the smaller size is one and the smaller width is closed. -/
theorem isValueText_expression {b : Bounds} (hsize : IsValueText b.minSize.toList)
    (hwidth : Terminal.Pieced [';', ')'] (b.minWidth.toList ++ [')'])) :
    IsValueText b.expression.toList := by
  have hending : Terminal.Pieced [';', ')'] b.ending := by
    have hall := Terminal.Pieced.ordinary_append b.all_isOrdinary_ending
      (.nil_semicolon [')'])
    rwa [List.append_nil] at hall
  have hwidth' : Terminal.Pieced [';', ')'] (b.minWidth.toList ++ ')' :: b.ending) := by
    have hall := hwidth.append (d := ' ') hending rfl
    rwa [List.append_assoc, List.singleton_append] at hall
  have hmiddle : Terminal.Pieced [';', ')']
      (' ' :: (b.middle ++ ' ' :: (b.minWidth.toList ++ ')' :: b.ending))) := by
    refine Terminal.Pieced.ordinary_append (l := [' ']) rfl ?_
    refine Terminal.Pieced.ordinary_append b.all_isOrdinary_middle ?_
    exact Terminal.Pieced.ordinary_append (l := [' ']) rfl hwidth'
  rw [isValueText_iff, toList_expression]
  refine ⟨by simp, ?_, ?_⟩
  · have htrimmed := isTrimmed_of_ends (c := 'c') (d := ')') rfl rfl (['a', 'l', 'c', '('] ++
      b.minSize.toList ++ [' '] ++ b.middle ++ [' '] ++ b.minWidth.toList ++ [')', ' ', '/', ' '] ++
        b.widthDifference.toText.toList ++ [')'])
    simpa [ending] using htrimmed
  · refine Terminal.Pieced.ordinary_append (l := ['c', 'a', 'l', 'c']) (by decide) ?_
    refine Terminal.Pieced.ordinary_append (l := ['(']) rfl ?_
    exact ((isValueText_iff _).1 hsize).2.2.append hmiddle rfl

/-- The expression asks for a fluid size only if the smaller size or the smaller width does. -/
theorem expression_not_fluid {b : Bounds} (hsize : Text.contains b.minSize "fluid" = false)
    (hwidth : Text.contains b.minWidth "fluid" = false) :
    Text.contains b.expression "fluid" = false := by
  rw [contains_fluid_eq_false_iff] at hsize hwidth ⊢
  have hmiddle := not_fluidWord_infix_of_not_mem
    (not_mem_of_all_isOrdinary b.all_isOrdinary_middle)
  have hending := not_fluidWord_infix_of_not_mem
    (not_mem_of_all_isOrdinary b.all_isOrdinary_ending)
  rw [toList_expression]
  refine not_fluidWord_infix_append_cons (by decide)
    (not_fluidWord_infix_of_not_mem (by decide)) ?_
  refine not_fluidWord_infix_append_cons (by decide) hsize ?_
  refine not_fluidWord_infix_append_cons (by decide) hmiddle ?_
  exact not_fluidWord_infix_append_cons (by decide) hwidth hending

end Bounds

/-! ## Interpolations -/

theorem exists_toText_of_pxToRem? {px rootFontSize width : String}
    (h : pxToRem? px rootFontSize = some width) : ∃ x : Binary64, width = x.toText ++ "rem" := by
  obtain ⟨x, -, rfl⟩ := Option.map_eq_some_iff.1 h
  exact ⟨x, rfl⟩

/-- The widths stay as they are or are converted into numbers with a unit. -/
theorem Interpolation.reconcile_ok {site : Site} {b scaled : Bounds} {rootFontSize : String}
    {r r' : Report} (h : reconcile site b (LengthUnit.of? b.minSize) (LengthUnit.of? b.minWidth)
      rootFontSize r = .ok scaled r') :
    b.convertsWidths = false ∧ scaled = b ∨ ∃ lower upper : Binary64, scaled =
      { b with minWidth := lower.toText ++ "rem", maxWidth := upper.toText ++ "rem" } := by
  unfold reconcile at h
  by_cases hconverts : b.convertsWidths = true
  · rw [if_pos (b.convertsWidths_iff.1 hconverts)] at h
    cases hlower : pxToRem? b.minWidth rootFontSize with
    | none =>
      rw [hlower] at h
      cases h
    | some lower =>
      cases hupper : pxToRem? b.maxWidth rootFontSize with
      | none =>
        rw [hlower, hupper] at h
        cases h
      | some upper =>
        rw [hlower, hupper] at h
        obtain ⟨x, rfl⟩ := exists_toText_of_pxToRem? hlower
        obtain ⟨y, rfl⟩ := exists_toText_of_pxToRem? hupper
        obtain ⟨rfl, -⟩ := pure_eq_ok_iff.1 h
        exact .inr ⟨x, y, rfl⟩
  · rw [if_neg (mt b.convertsWidths_iff.2 hconverts)] at h
    refine .inl ⟨Bool.eq_false_iff.2 hconverts, ?_⟩
    split at h
    · exact (pure_eq_ok_iff.1 h).1.symm
    · obtain ⟨_, _, -, h⟩ := bind_eq_ok_iff.1 h
      exact (pure_eq_ok_iff.1 h).1.symm

/-- An interpolation that can be put into a sheet: all that it copies is read back, and it asks for no
fluid size. -/
structure Interpolation.IsClean (i : Interpolation) : Prop where
  prop_eq : ∃ p : Property, i.prop = p.name
  selector_text : isSelectorText i.selector.toList = true
  expression_closed : IsValueText i.expression.toList
  expression_not_fluid : Text.contains i.expression "fluid" = false
  bounds_copyable : i.bounds.IsCopyable

/-- The interpolation of bounds that can be copied is clean. -/
theorem Interpolation.isClean_of_build_ok {site : Site} {p : Property} {rootFontSize : String}
    {b : Bounds} {i : Interpolation} {r r' : Report}
    (h : build site p.name b rootFontSize r = .ok i r')
    (hselector : isSelectorText site.selector.toList = true) (hb : b.IsCopyable) : i.IsClean := by
  obtain ⟨scaled, r₁, hscaled, rfl⟩ := build_ok h
  -- the smaller width is copied, or it is a number with a unit
  obtain ⟨hsize, hclosed, hfluid⟩ : scaled.minSize = b.minSize ∧
      Terminal.Pieced [';', ')'] (scaled.minWidth.toList ++ [')']) ∧
        Text.contains scaled.minWidth "fluid" = false := by
    rcases reconcile_ok hscaled with ⟨hconverts, rfl⟩ | ⟨lower, upper, rfl⟩
    · have hpieced := ((isValueText_iff _).1 (hb.minWidth_closed hconverts)).2.2
      exact ⟨rfl, hpieced.of_cons rfl, hb.minWidth_not_fluid hconverts⟩
    · have hordinary : (lower.toText ++ "rem").toList.all Terminal.isOrdinary = true := by
        rw [String.toList_append, List.all_append, all_isOrdinary_toText]
        decide
      have hpieced := Terminal.Pieced.ordinary_append (l := (lower.toText ++ "rem").toList ++ [')'])
        (by rw [List.all_append, hordinary]; rfl) (.nil_semicolon [')'])
      rw [List.append_nil] at hpieced
      exact ⟨rfl, hpieced, (contains_fluid_eq_false_iff _).2
        (not_fluidWord_infix_of_not_mem (not_mem_of_all_isOrdinary hordinary))⟩
  exact ⟨⟨p, rfl⟩, hselector,
    Bounds.isValueText_expression (hsize ▸ hb.minSize_closed) hclosed,
    Bounds.expression_not_fluid (hsize ▸ hb.minSize_not_fluid) hfluid, hb⟩

/-! ## Sheets that ask for nothing -/

namespace Node

mutual

/-- Whether no rule in a node asks for a fluid size. -/
def isSettled : Node → Bool
  | declaration .. => true
  | rule _ _ nodes => nodes.all fun n => n.fluidProperty?.isNone
  | atStatement .. => true
  | atBlock _ _ _ nodes => areSettled nodes

/-- Whether no rule in nodes asks for a fluid size. -/
def areSettled : List Node → Bool
  | [] => true
  | n :: ns => n.isSettled && areSettled ns

end

theorem areSettled_eq_all (ns : List Node) : areSettled ns = ns.all isSettled := by
  induction ns with
  | nil => rfl
  | cons n ns ih => rw [areSettled, List.all_cons, ih]

theorem arePrintable_iff {inBlock : Bool} {ns : List Node} :
    ArePrintable inBlock ns ↔ ∀ n ∈ ns, n.IsPrintable inBlock := by
  induction ns with
  | nil => simp [ArePrintable]
  | cons n ns ih => rw [ArePrintable, ih, List.forall_mem_cons]

/-- A declaration that is printed so that it is read back in a rule and asks for no fluid size. -/
structure IsPlainDeclaration (n : Node) : Prop where
  isDeclaration : n.isDeclaration = true
  printable : n.IsPrintable false
  not_fluid : n.fluidProperty? = none

/-- A rule of such declarations is printed so that it is read back and asks for no fluid size. -/
theorem rule_clean {selector : String} {nodes : List Node}
    (hselector : isSelectorText selector.toList = true) (h : ∀ n ∈ nodes, n.IsPlainDeclaration)
    (source : Option Position) (inBlock : Bool) :
    (rule selector source nodes).IsPrintable inBlock ∧
      (rule selector source nodes).isSettled = true := by
  refine ⟨⟨hselector, fun n hn => (h n hn).isDeclaration, ?_⟩, ?_⟩
  · exact arePrintable_iff.2 fun n hn => (h n hn).printable
  · rw [isSettled, List.all_eq_true]
    exact fun n hn => Option.isNone_iff_eq_none.2 (h n hn).not_fluid

end Node

namespace Interpolation.IsClean

variable {i : Interpolation}

/-- The declarations of a property and of its custom property are printed so that they are read back
and ask for no fluid size. -/
theorem declaration_clean (hi : i.IsClean) {value : String} (hclosed : IsValueText value.toList)
    (hfluid : Text.contains value "fluid" = false) (source : Option Position) :
    ∀ n ∈ [Node.declaration i.prop value source,
      Node.declaration (variableName i.prop) value source], n.IsPlainDeclaration := by
  obtain ⟨p, hp⟩ := hi.prop_eq
  have hprop : ∀ prop, isPropertyText prop.toList = true →
      (Node.declaration prop value source).IsPlainDeclaration := by
    intro prop hprop
    refine ⟨rfl, ⟨hprop, hclosed, fun h => absurd h (by decide)⟩, ?_⟩
    rw [Node.fluidProperty?, hfluid, if_neg (by decide)]
  intro n hn
  simp only [List.mem_cons, List.not_mem_nil, or_false] at hn
  rcases hn with rfl | rfl
  · exact hprop _ (by rw [hp]; cases p <;> decide)
  · exact hprop _ (by rw [hp]; cases p <;> decide)

theorem pair_clean (hi : i.IsClean) (source : Option Position) :
    ∀ n ∈ Node.pair i source, n.IsPlainDeclaration :=
  hi.declaration_clean hi.expression_closed hi.expression_not_fluid source

/-- A media block is printed so that it is read back and asks for no fluid size. -/
theorem media_clean (hi : i.IsClean) (inBlock : Bool) {query size : String}
    (hquery : isParamsText query.toList = true) (hclosed : IsValueText size.toList)
    (hfluid : Text.contains size "fluid" = false) :
    (i.media query size).IsPrintable inBlock ∧ (i.media query size).isSettled = true := by
  obtain ⟨hprintable, hsettled⟩ := Node.rule_clean hi.selector_text
    (hi.declaration_clean hclosed hfluid none) i.source true
  refine ⟨⟨by decide, hquery, hprintable, trivial⟩, ?_⟩
  rw [media, Node.isSettled, Node.areSettled, Node.areSettled, Bool.and_true]
  exact hsettled

end Interpolation.IsClean

/-- A condition on the width of the viewport is read to its end if the width has no delimiter. -/
theorem isParamsText_condition {start width : String} {cs : List Char}
    (hstart : start.toList = 's' :: cs ∧ cs.all Terminal.isPlain = true)
    (hwidth : width.toList.all Terminal.isPlain = true) :
    isParamsText (start ++ width ++ ")").toList = true := by
  have htext : (start ++ width ++ ")").toList = 's' :: (cs ++ width.toList ++ [')']) := by
    simp [hstart.1]
  rw [htext, isParamsText, isTrimmed_of_ends rfl rfl, List.all_cons, List.all_append,
    List.all_append, hstart.2, hwidth]
  rfl

/-- The media blocks of interpolations that are clean are printed so that they are read back and ask
for no fluid size. -/
theorem mediaBlocks_clean {outputs : List Interpolation} (h : ∀ i ∈ outputs, i.IsClean)
    (inBlock : Bool) :
    ∀ n ∈ Node.mediaBlocks outputs,
      n.isStatement = true ∧ n.IsPrintable inBlock ∧ n.isSettled = true := by
  intro n hn
  obtain ⟨i, hi, hn⟩ := List.mem_flatMap.1 hn
  have hclean := h i (List.mem_reverse.1 hi)
  have hb := hclean.bounds_copyable
  have hmin : isParamsText i.minQuery.toList = true := by
    unfold Interpolation.minQuery
    exact isParamsText_condition ⟨rfl, by decide +kernel⟩ hb.minWidth_plain
  have hmax : isParamsText i.maxQuery.toList = true := by
    unfold Interpolation.maxQuery
    exact isParamsText_condition ⟨rfl, by decide +kernel⟩ hb.maxWidth_plain
  simp only [List.mem_cons, List.not_mem_nil, or_false] at hn
  rcases hn with rfl | rfl
  · exact ⟨rfl, hclean.media_clean inBlock hmax hb.maxSize_closed hb.maxSize_not_fluid⟩
  · exact ⟨rfl, hclean.media_clean inBlock hmin hb.minSize_closed hb.minSize_not_fluid⟩

/-! ## A sheet that has been expanded -/

namespace Node

/-- What holds of what becomes of a rule holds of the nodes in it that ask for nothing, and of what
takes the place of those that do. -/
theorem expandedInRule_forall {P : Interpolation → Prop} {Q : Node → Prop} {all ns others : List Node}
    {make : Property → Reporting Interpolation} {outputs : List Interpolation} {r r' : Report}
    (hmake : ∀ p s i t, ask p ns = true → make p s = .ok i t → P i)
    (hkept : ∀ n ∈ ns, n.fluidProperty? = none → Q n)
    (hpair : ∀ i source, P i → ∀ n ∈ pair i source, Q n)
    (h : expandedInRule all make ns r = .ok (outputs, others) r') :
    (∀ i ∈ outputs, P i) ∧ ∀ n ∈ others, Q n := by
  induction ns generalizing outputs others r r' with
  | nil =>
    obtain ⟨heq, -⟩ := pure_eq_ok_iff.1 h
    obtain ⟨rfl, rfl⟩ := Prod.mk.inj heq
    simp
  | cons n ns ih =>
    have hrest : ∀ {outputs others r r'}, expandedInRule all make ns r = .ok (outputs, others) r' →
        (∀ i ∈ outputs, P i) ∧ ∀ n ∈ others, Q n := by
      refine ih (fun p s i t hp => hmake p s i t ?_) fun m hm => hkept m (List.mem_cons_of_mem n hm)
      rw [ask, List.any_cons, Bool.or_eq_true]
      exact .inr hp
    rw [expandedInRule] at h
    cases hn : n.fluidProperty? with
    | none =>
      rw [hn] at h
      dsimp only at h
      split at h
      · exact hrest h
      · obtain ⟨⟨outputs', others'⟩, r₁, hothers, h⟩ := bind_eq_ok_iff.1 h
        obtain ⟨heq, -⟩ := pure_eq_ok_iff.1 h
        obtain ⟨rfl, rfl⟩ := Prod.mk.inj heq
        obtain ⟨hP, hQ⟩ := hrest hothers
        exact ⟨hP, List.forall_mem_cons.2 ⟨hkept n List.mem_cons_self hn, hQ⟩⟩
    | some p =>
      rw [hn] at h
      dsimp only at h
      split at h
      · exact hrest h
      · obtain ⟨i, r₁, hi, h⟩ := bind_eq_ok_iff.1 h
        obtain ⟨⟨outputs', others'⟩, r₂, hothers, h⟩ := bind_eq_ok_iff.1 h
        obtain ⟨heq, -⟩ := pure_eq_ok_iff.1 h
        obtain ⟨rfl, rfl⟩ := Prod.mk.inj heq
        obtain ⟨hP, hQ⟩ := hrest hothers
        have hPi : P i := hmake p r i r₁ (by simp [ask, hn]) hi
        exact ⟨List.forall_mem_cons.2 ⟨hPi, hP⟩,
          List.forall_mem_append.2 ⟨hpair i n.source hPi, hQ⟩⟩

theorem any_asks_declared (p : Property) (ns : List Node) :
    (declared ns).any (Declared.asks p) = ask p ns := by
  induction ns with
  | nil => rfl
  | cons n ns ih =>
    rw [ask, List.any_cons, ← ask, ← ih]
    cases n <;> rfl

end Node

/-- Whether all bounds can be copied that belong to a fluid size of a rule. -/
def RuleBody.IsCopyable (options : Options) (body : RuleBody) : Prop :=
  ∀ p, body.declared.any (Declared.asks p) = true →
    (Declared.boundsOf p (options.defaults p) body.declared).IsCopyable

namespace Node

variable {options : Options} {input name : Option String}

/-- The interpolation that a rule asks for is clean if its bounds can be copied. -/
theorem interpolate_clean {site : Site} {size : String} {nodes : List Node} {p : Property}
    {i : Interpolation} {r r' : Report} (h : interpolate options site size nodes p r = .ok i r')
    (hselector : isSelectorText site.selector.toList = true)
    (hb : (Declared.boundsOf p (options.defaults p) (declared nodes)).IsCopyable) : i.IsClean := by
  obtain ⟨_, r₁, -, hbuild⟩ := bind_eq_ok_iff.1 h
  exact Interpolation.isClean_of_build_ok hbuild hselector hb

/-- What becomes of a rule is printed so that it is read back and asks for no fluid size. -/
theorem expanded_rule_clean {selector : String} {source : Option Position} {nodes : List Node}
    {inBlock : Bool} (hprintable : (rule selector source nodes).IsPrintable inBlock)
    (hcopyable : RuleBody.IsCopyable options ⟨⟨selector, source, input, name⟩, declared nodes⟩)
    {size : String} {r r' : Report} {ex : Expanded}
    (h : (rule selector source nodes).expanded options input name size r = .ok ex r') :
    ∀ n ∈ ex.nodes, n.isStatement = true ∧ n.IsPrintable inBlock ∧ n.isSettled = true := by
  obtain ⟨hselector, hdeclarations, hnodes⟩ := hprintable
  rw [arePrintable_iff] at hnodes
  rw [expanded] at h
  dsimp only at h
  obtain ⟨r₁, -, h⟩ := ite_bind_eq_ok_iff.1 h
  obtain ⟨⟨outputs, inside⟩, r₂, hinside, h⟩ := bind_eq_ok_iff.1 h
  obtain ⟨rfl, -⟩ := pure_eq_ok_iff.1 h
  obtain ⟨hclean, hplain⟩ := expandedInRule_forall (P := Interpolation.IsClean)
    (Q := IsPlainDeclaration)
    (fun p _ _ _ hp hi => interpolate_clean hi hselector
      (hcopyable p ((any_asks_declared p nodes).trans hp)))
    (fun n hn hnone => ⟨hdeclarations n hn, hnodes n hn, hnone⟩)
    (fun _ source hi => hi.pair_clean source) hinside
  exact List.forall_mem_cons.2
    ⟨⟨rfl, rule_clean hselector hplain source inBlock⟩, mediaBlocks_clean hclean inBlock⟩

mutual

/-- **What becomes of a node is printed so that it is read back and asks for no fluid size**, if the
node is printed so and the bounds of its fluid sizes can be copied. -/
theorem expanded_clean (t : Node) {inBlock : Bool} (hprintable : t.IsPrintable inBlock)
    (hcopyable : ∀ body ∈ t.ruleBodies input name, body.IsCopyable options) {size : String}
    {r r' : Report} {ex : Expanded} (h : t.expanded options input name size r = .ok ex r') :
    ∀ n ∈ ex.nodes, (t.isStatement = true → n.isStatement = true) ∧ n.IsPrintable inBlock ∧
      n.isSettled = true := by
  cases t with
  | declaration prop value source =>
    obtain ⟨rfl, -⟩ := pure_eq_ok_iff.1 h
    exact List.forall_mem_singleton.2 ⟨id, hprintable, rfl⟩
  | rule selector source nodes =>
    intro n hn
    obtain ⟨hstatement, hclean⟩ := expanded_rule_clean hprintable
      (hcopyable _ List.mem_cons_self) h n hn
    exact ⟨fun _ => hstatement, hclean⟩
  | atStatement atName params source =>
    obtain ⟨rfl, -⟩ := pure_eq_ok_iff.1 h
    exact List.forall_mem_singleton.2 ⟨id, hprintable, rfl⟩
  | atBlock atName params source nodes =>
    obtain ⟨hname, hparams, hnodes⟩ := hprintable
    obtain ⟨inside, r₁, hinside, h⟩ := bind_eq_ok_iff.1 h
    obtain ⟨rfl, -⟩ := pure_eq_ok_iff.1 h
    have hclean := expandedAll_clean nodes hnodes hcopyable hinside
    refine List.forall_mem_singleton.2 ⟨fun _ => rfl, ⟨hname, hparams, ?_⟩, ?_⟩
    · exact arePrintable_iff.2 fun n hn => (hclean n hn).2.1
    · rw [isSettled, areSettled_eq_all, List.all_eq_true]
      exact fun n hn => (hclean n hn).2.2

theorem expandedAll_clean (ts : List Node) {inBlock : Bool} (hprintable : ArePrintable inBlock ts)
    (hcopyable : ∀ body ∈ ruleBodiesAll input name ts, body.IsCopyable options) {size : String}
    {r r' : Report} {ex : Expanded} (h : expandedAll options input name size ts r = .ok ex r') :
    ∀ n ∈ ex.nodes, ((∀ t ∈ ts, t.isStatement = true) → n.isStatement = true) ∧
      n.IsPrintable inBlock ∧ n.isSettled = true := by
  cases ts with
  | nil =>
    obtain ⟨rfl, -⟩ := pure_eq_ok_iff.1 h
    exact fun n hn => absurd hn List.not_mem_nil
  | cons t ts =>
    obtain ⟨first, r₁, hfirst, h⟩ := bind_eq_ok_iff.1 h
    obtain ⟨rest, r₂, hrest, h⟩ := bind_eq_ok_iff.1 h
    obtain ⟨rfl, -⟩ := pure_eq_ok_iff.1 h
    rw [ruleBodiesAll, List.forall_mem_append] at hcopyable
    refine List.forall_mem_append.2 ⟨fun n hn => ?_, fun n hn => ?_⟩
    · obtain ⟨hstatement, hclean⟩ := expanded_clean t hprintable.1 hcopyable.1 hfirst n hn
      exact ⟨fun hts => hstatement (hts t List.mem_cons_self), hclean⟩
    · obtain ⟨hstatement, hclean⟩ := expandedAll_clean ts hprintable.2 hcopyable.2 hrest n hn
      exact ⟨fun hts => hstatement fun t' ht' => hts t' (List.mem_cons_of_mem t ht'), hclean⟩

end

end Node

end FluidCss
