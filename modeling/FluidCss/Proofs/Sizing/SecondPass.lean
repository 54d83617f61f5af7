import FluidCss.Proofs.Sizing.Copying

set_option autoImplicit false

/-! # A second pass

A sheet in which no rule asks for a fluid size is printed as it is, without a warning. So what has
been expanded is left alone by a second pass, if it is read back as it was printed and none of the
texts that have been copied asks for a fluid size again. -/

namespace FluidCss

/-- An event that is put down under a condition is no warning. -/
theorem Reporting.exists_logged (c : Prop) [Decidable c] (e : Event) (r : Report) :
    ∃ r', (if c then ∃ u, Reporting.log e r = .ok u r' else r' = r) ∧
      r'.warnings = r.warnings := by
  split
  · exact ⟨_, ⟨(), rfl⟩, rfl⟩
  · exact ⟨r, rfl, rfl⟩

/-! ## Sheets that ask for nothing -/

namespace Node

variable {options : Options} {input name : Option String}

theorem forall_fluidProperty?_declared (ns : List Node) :
    (∀ d ∈ declared ns, d.fluidProperty? = none) ↔
      (ns.all fun n => n.fluidProperty?.isNone) = true := by
  induction ns with
  | nil => simp [declared]
  | cons n ns ih =>
    rw [List.all_cons, Bool.and_eq_true, ← ih]
    cases n with
    | declaration prop value source =>
      rw [Option.isNone_iff_eq_none]
      exact List.forall_mem_cons
    | _ => exact (and_iff_right rfl).symm

mutual

theorem isSettled_iff (input name : Option String) (t : Node) :
    t.isSettled = true ↔
      ∀ body ∈ t.ruleBodies input name, ∀ d ∈ body.declared, d.fluidProperty? = none := by
  cases t with
  | declaration prop value source => simp [isSettled, ruleBodies]
  | rule selector source nodes =>
    rw [isSettled, ruleBodies, List.forall_mem_singleton]
    exact (forall_fluidProperty?_declared nodes).symm
  | atStatement atName params source => simp [isSettled, ruleBodies]
  | atBlock atName params source nodes => exact areSettled_iff input name nodes

/-- No rule asks for a fluid size exactly if none of its declarations does. -/
theorem areSettled_iff (input name : Option String) (ts : List Node) :
    areSettled ts = true ↔
      ∀ body ∈ ruleBodiesAll input name ts, ∀ d ∈ body.declared, d.fluidProperty? = none := by
  cases ts with
  | nil => simp [areSettled, ruleBodiesAll]
  | cons t ts =>
    rw [areSettled, Bool.and_eq_true, ruleBodiesAll, List.forall_mem_append,
      isSettled_iff input name t, areSettled_iff input name ts]

end

theorem fluidProperty?_forgetSource (n : Node) :
    n.forgetSource.fluidProperty? = n.fluidProperty? := by
  cases n <;> rfl

theorem all_forgetSources (ns : List Node) :
    ((forgetSources ns).all fun n => n.fluidProperty?.isNone) =
      ns.all fun n => n.fluidProperty?.isNone := by
  induction ns with
  | nil => rfl
  | cons n ns ih =>
    rw [forgetSources, List.all_cons, List.all_cons, ih, fluidProperty?_forgetSource]

mutual

theorem isSettled_forgetSource (t : Node) : t.forgetSource.isSettled = t.isSettled := by
  cases t with
  | declaration prop value source => rfl
  | rule selector source nodes => exact all_forgetSources nodes
  | atStatement atName params source => rfl
  | atBlock atName params source nodes => exact areSettled_forgetSources nodes

theorem areSettled_forgetSources (ts : List Node) :
    areSettled (forgetSources ts) = areSettled ts := by
  cases ts with
  | nil => rfl
  | cons t ts =>
    rw [forgetSources, areSettled, areSettled, isSettled_forgetSource t,
      areSettled_forgetSources ts]

end

/-- A rule that asks for nothing stays as it is. -/
theorem expandedInRule_of_settled {all ns : List Node} {make : Property → Reporting Interpolation}
    (hall : (all.all fun n => n.fluidProperty?.isNone) = true)
    (hns : (ns.all fun n => n.fluidProperty?.isNone) = true) :
    expandedInRule all make ns = pure ([], ns) := by
  have hask : ∀ p, ask p all = false := by
    intro p
    refine List.any_eq_false.2 fun n hn => ?_
    simp [Option.isNone_iff_eq_none.1 (List.all_eq_true.1 hall n hn)]
  induction ns with
  | nil => rfl
  | cons n ns ih =>
    rw [List.all_cons, Bool.and_eq_true, Option.isNone_iff_eq_none] at hns
    have hspent : ¬ n.isSpent all = true := by
      simp [isSpent, hask]
    rw [expandedInRule, hns.1, ih hns.2]
    dsimp only
    rw [if_neg hspent]
    rfl

mutual

/-- A node in which nothing is asked for stays as it is, and there is no warning. -/
theorem expanded_of_settled (t : Node) (ht : t.isSettled = true) (size : String) (r : Report) :
    ∃ last r', t.expanded options input name size r = .ok ⟨last, [], [t]⟩ r' ∧
      r'.warnings = r.warnings := by
  cases t with
  | declaration prop value source => exact ⟨size, r, rfl, rfl⟩
  | rule selector source nodes =>
    obtain ⟨r', hlog, hwarnings⟩ := Reporting.exists_logged
      (rootFontSizeAfter selector (declared nodes) size ≠ size)
      (.rootSizeSet (rootFontSizeAfter selector (declared nodes) size) selector) r
    refine ⟨rootFontSizeAfter selector (declared nodes) size, r', ?_, hwarnings⟩
    rw [expanded]
    refine ite_bind_eq_ok_iff.2 ⟨r', hlog, ?_⟩
    rw [expandedInRule_of_settled ht ht]
    rfl
  | atStatement atName params source => exact ⟨size, r, rfl, rfl⟩
  | atBlock atName params source nodes =>
    obtain ⟨last, r', hrun, hwarnings⟩ := expandedAll_of_settled nodes ht size r
    refine ⟨last, r', ?_, hwarnings⟩
    rw [expanded, bind_of_ok hrun]
    rfl

theorem expandedAll_of_settled (ts : List Node) (hts : areSettled ts = true) (size : String)
    (r : Report) :
    ∃ last r', expandedAll options input name size ts r = .ok ⟨last, [], ts⟩ r' ∧
      r'.warnings = r.warnings := by
  cases ts with
  | nil => exact ⟨size, r, rfl, rfl⟩
  | cons t ts =>
    rw [areSettled, Bool.and_eq_true] at hts
    obtain ⟨mid, r₁, hfirst, hwarnings⟩ := expanded_of_settled t hts.1 size r
    obtain ⟨last, r₂, hrest, hwarnings'⟩ := expandedAll_of_settled ts hts.2 mid r₁
    refine ⟨last, r₂, ?_, hwarnings'.trans hwarnings⟩
    rw [expandedAll, bind_of_ok hfirst, bind_of_ok hrest]
    rfl

end

end Node

/-! ## Fluid sizes and what is asked for -/

namespace FluidSize

variable {options : Options} {rules : List RuleBody} {rule : RuleBody}

/-- There are no fluid sizes exactly if no declaration asks for one. -/
theorem ofRules_eq_nil_iff (rootFontSize : String) :
    ofRules options rootFontSize rules = [] ↔
      ∀ rule ∈ rules, ∀ d ∈ rule.declared, d.fluidProperty? = none := by
  induction rules generalizing rootFontSize with
  | nil => simp [ofRules]
  | cons rule rules ih =>
    rw [ofRules, List.append_eq_nil_iff, ih, ofRule, List.map_eq_nil_iff,
      Declared.expanding_eq_nil_iff, List.forall_mem_cons]

/-- Each property that a rule asks a fluid size of has one with the bounds that the rule gives. -/
theorem exists_mem_ofRules (options : Options) (rootFontSize : String) {p : Property} (hrule : rule ∈ rules)
    (hasks : rule.declared.any (Declared.asks p) = true) :
    ∃ size ∈ ofRules options rootFontSize rules,
      size.bounds = Declared.boundsOf p (options.defaults p) rule.declared := by
  induction rules generalizing rootFontSize with
  | nil => exact absurd hrule List.not_mem_nil
  | cons first rules ih =>
    simp only [ofRules, List.mem_append]
    rcases List.mem_cons.1 hrule with rfl | hrule
    · obtain ⟨d, hd, hp⟩ := List.any_eq_true.1 hasks
      obtain ⟨last, overridden, hentry, -⟩ := Declared.exists_mem_expanding hd hp
      exact ⟨_, .inl (List.mem_map.2 ⟨_, hentry, rfl⟩), rfl⟩
    · obtain ⟨size, hsize, hbounds⟩ := ih _ hrule
      exact ⟨size, .inr hsize, hbounds⟩

end FluidSize

namespace Sheet

variable {options : Options} {sheet : Sheet}

theorem fluidSizes_eq_nil_iff :
    sheet.fluidSizes options = [] ↔ Node.areSettled sheet.nodes = true := by
  rw [fluidSizes, FluidSize.ofRules_eq_nil_iff, Node.areSettled_iff]

/-- A sheet without fluid sizes stays as it is. -/
theorem expanded_of_no_fluidSizes (h : sheet.fluidSizes options = []) (r : Report) :
    ∃ last r', sheet.expanded options r = .ok ⟨last, [], sheet.nodes⟩ r' ∧
      r'.warnings = r.warnings :=
  Node.expandedAll_of_settled sheet.nodes (fluidSizes_eq_nil_iff.1 h) options.rootFontSize r

theorem isCopyable_of_fluidSizes (h : ∀ size ∈ sheet.fluidSizes options, size.bounds.IsCopyable) :
    ∀ body ∈ Node.ruleBodiesAll sheet.input sheet.name sheet.nodes,
      body.IsCopyable options := by
  intro body hbody p hasks
  obtain ⟨size, hsize, hbounds⟩ :=
    FluidSize.exists_mem_ofRules options options.rootFontSize hbody hasks
  exact hbounds ▸ h size hsize

end Sheet

/-! ## Two passes -/

/-- A readable sheet that asks for nothing is printed by a pass as it was. -/
theorem process_of_settled {nodes : List Node} (stands : ∀ n ∈ nodes, n.isStatement = true)
    (readable : Node.IsReadableSheet nodes) (settled : Node.areSettled nodes = true)
    (options : Options) (name : Option String) :
    ∃ p, process options (Node.toCss nodes) name = .ok p ∧ p.css = Node.toCss nodes ∧
      p.report.warnings = [] := by
  obtain ⟨parsed, hparse, hsame⟩ := parse_of_isReadableSheet name stands readable
  have hsettled : Node.areSettled parsed = true := by
    rw [← Node.areSettled_forgetSources, hsame, Node.areSettled_forgetSources, settled]
  have hnosizes : Sheet.fluidSizes options ⟨parsed, some (Node.toCss nodes), name⟩ = [] :=
    Sheet.fluidSizes_eq_nil_iff.2 hsettled
  obtain ⟨ex, r, p, hexpanded, hprocess, hcss, hwarnings⟩ :=
    exists_process_of_findSome? hparse (congrArg (List.findSome? FluidSize.failure?) hnosizes)
  -- the recursion has the tree as it was read
  obtain ⟨last, r', hstays, hnone⟩ := Sheet.expanded_of_no_fluidSizes hnosizes .empty
  obtain ⟨rfl, rfl⟩ := EStateM.Result.ok.inj (hstays.symm.trans hexpanded)
  exact ⟨p, hprocess, hcss.trans (Node.toCss_congr hsame), hwarnings.trans hnone⟩

/-- **A second pass changes nothing.** -/
theorem process_process {options : Options} {css : String} {name : Option String} {sheet : Sheet}
    {p : Processed} (hparse : Sheet.parse css name = .ok sheet)
    (hprocess : process options css name = .ok p)
    (unambiguous : Node.areUnambiguous false sheet.nodes = true)
    (printable : sheet.fluidSizes options ≠ [] → Node.ArePrintable false sheet.nodes)
    (copyable : ∀ size ∈ sheet.fluidSizes options, size.bounds.IsCopyable)
    (name' : Option String) :
    ∃ q, process options p.css name' = .ok q ∧ q.css = p.css ∧ q.report.warnings = [] := by
  obtain ⟨ex, r, hexpanded, hcss, -⟩ := exists_expanded_of_process_ok hparse hprocess
  obtain ⟨stands, readable⟩ := isReadableSheet_of_parse hparse unambiguous
  rw [hcss]
  by_cases hnone : sheet.fluidSizes options = []
  · -- nothing has been asked for, and so nothing has been changed
    obtain ⟨last, r', hstays, -⟩ := Sheet.expanded_of_no_fluidSizes hnone .empty
    obtain ⟨rfl, -⟩ := EStateM.Result.ok.inj (hstays.symm.trans hexpanded)
    exact process_of_settled stands readable (Sheet.fluidSizes_eq_nil_iff.1 hnone) options name'
  · have hclean := Node.expandedAll_clean sheet.nodes (printable hnone)
      (Sheet.isCopyable_of_fluidSizes copyable) hexpanded
    refine process_of_settled (fun n hn => (hclean n hn).1 stands) ?_ ?_ options name'
    · exact Node.isReadableSheet_of_arePrintable _
        (Node.arePrintable_iff.2 fun n hn => (hclean n hn).2.1)
    · rw [Node.areSettled_eq_all, List.all_eq_true]
      exact fun n hn => (hclean n hn).2.2

/-- A sheet with two fluid sizes, one in an at-rule and one whose widths are converted. -/
def twoSizes : String :=
  "@media print\x7b.a\x7bline-height:fluid 1.2em 2em\x7d\x7d .b\x7bfont-size:fluid 1rem 2rem\x7d"

/-- What has become of both sizes is left alone by a second pass. -/
theorem process_process_twoSizes :
    ∃ p q, process Options.builtin twoSizes none = .ok p ∧
      process Options.builtin p.css none = .ok q ∧ q.css = p.css ∧ q.report.warnings = [] := by
  obtain ⟨sheet, hparse, hmade, hunambiguous, hprintable, hcopyable⟩ :
      ∃ sheet, Sheet.parse twoSizes none = .ok sheet ∧
        (sheet.fluidSizes Options.builtin).findSome? FluidSize.failure? = none ∧
        Node.areUnambiguous false sheet.nodes = true ∧ Node.ArePrintable false sheet.nodes ∧
        ∀ size ∈ sheet.fluidSizes Options.builtin, size.bounds.IsCopyable := by
    decide +kernel
  obtain ⟨_, _, p, -, hprocess, -⟩ := exists_process_of_findSome? hparse hmade
  obtain ⟨q, hq⟩ := process_process hparse hprocess hunambiguous (fun _ => hprintable) hcopyable none
  exact ⟨p, q, hprocess, hq⟩

/-! ## Texts that cannot be copied -/

/-- The text that a text is processed to, by the recursion over its tree, if there is one. -/
def processedText? (options : Options) (name : Option String) (cs : List Char) :
    Option (List Char) :=
  match Sheet.parseNodes cs with
  | .error _ => none
  | .ok nodes =>
    let sheet : Sheet := ⟨nodes, some (String.ofList cs), name⟩
    if (sheet.fluidSizes options).findSome? FluidSize.failure? = none then
      match sheet.expanded options .empty with
      | .ok ex _ => some (Node.sheetText ex.nodes)
      | .error _ _ => none
    else none

/-- **Processing is the recursion over the tree**, as far as the text is concerned. -/
theorem toOption_process (options : Options) (css : String) (name : Option String) :
    (process options css name).toOption.map (fun p => p.css.toList) =
      processedText? options name css.toList := by
  unfold processedText?
  cases hnodes : Sheet.parseNodes css.toList with
  | error refusal =>
    rw [process, processWith, Sheet.parse, hnodes]
    rfl
  | ok nodes =>
    have hparse : Sheet.parse css name = .ok ⟨nodes, some css, name⟩ := by
      rw [Sheet.parse, hnodes]
    dsimp only
    rw [String.ofList_toList]
    split
    · next hmade =>
      obtain ⟨ex, r, p, hexpanded, hprocess, hcss, -⟩ := exists_process_of_findSome? hparse hmade
      rw [hexpanded, hprocess]
      simp [Except.toOption, hcss, Node.toCss]
    · next hfails =>
      obtain ⟨e, he⟩ := Option.ne_none_iff_exists'.1 hfails
      rw [(process_eq_error_iff_of_parse hparse options e).2 he]
      rfl

theorem processedText?_eq_some_iff {options : Options} {css : String} {name : Option String}
    {cs : List Char} :
    processedText? options name css.toList = some cs ↔
      ∃ p, process options css name = .ok p ∧ p.css.toList = cs := by
  rw [← toOption_process, Option.map_eq_some_iff]
  cases process options css name <;> simp [Except.toOption]

/-- That a second pass does not give the same again can be seen by running both. -/
theorem exists_process_not_again {options : Options} {css : String}
    (h : ((processedText? options none css.toList).any fun cs =>
      processedText? options none cs != some cs) = true) :
    ∃ p, process options css none = .ok p ∧
      ¬∃ q, process options p.css none = .ok q ∧ q.css = p.css := by
  obtain ⟨cs, hcs, hother⟩ := Option.any_eq_true _ _ |>.1 h
  obtain ⟨p, hp, rfl⟩ := processedText?_eq_some_iff.1 hcs
  refine ⟨p, hp, fun ⟨q, hq, hsame⟩ => bne_iff_ne.1 hother ?_⟩
  exact processedText?_eq_some_iff.2 ⟨q, hq, congrArg String.toList hsame⟩

/-- A size that has the word fluid in it. -/
def fluidInSize : String := "a\x7bfont-size:fluid 1px 2pxfluid\x7d"

/-- Widths that are written in quotes. -/
def quotedWidths : String := "a\x7bfont-size:fluid;font-range:'1px 2px'\x7d"

/-- A mark that no parenthesis closes, in front of a fluid size. -/
def unclosedMark : String := "@x\x7bb\x7bc:url(d\x7d\x7da\x7bfont-size:fluid\x7d"

/-- A comment that is not closed, in front of a fluid size. -/
def unclosedComment : String := "@x/*\x7ba\x7bfont-size:fluid\x7d\x7d"

/-- Bounds of the caller that close comments. -/
def closingComments : Options :=
  { Options.builtin with defaults := fun p => (p.builtin).set .minSize "1px*/" }

/-- A text that is copied can ask for a fluid size, open a mark or close one, and then a second pass
changes what has been printed or does not read it. -/
theorem process_process_copiedTexts :
    (∀ css ∈ [fluidInSize, quotedWidths, unclosedMark],
      ∃ p, process Options.builtin css none = .ok p ∧
        ¬∃ q, process Options.builtin p.css none = .ok q ∧ q.css = p.css) ∧
    ∃ p, process closingComments unclosedComment none = .ok p ∧
      ¬∃ q, process closingComments p.css none = .ok q ∧ q.css = p.css := by
  refine ⟨fun css hcss => ?_, exists_process_not_again (by decide +kernel)⟩
  simp only [List.mem_cons, List.not_mem_nil, or_false] at hcss
  rcases hcss with rfl | rfl | rfl
  · exact exists_process_not_again (by decide +kernel)
  · exact exists_process_not_again (by decide +kernel)
  · exact exists_process_not_again (by decide +kernel)

end FluidCss
