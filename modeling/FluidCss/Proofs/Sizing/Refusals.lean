import FluidCss.Proofs.Sizing.Processing
import FluidCss.Sizing.FluidSize

set_option autoImplicit false

/-! # Which sheets are refused

A sheet that has been read is refused for the first fluid size in document order that cannot be made,
and for no other reason. The steps of a plan are gone through one by one: only the interpolation of a
fluid size can fail, and it does so as `FluidSize.failure?` says. -/

namespace FluidCss

open Forest

/-! ## One fluid size -/

theorem Bounds.convertsWidths_iff (b : Bounds) :
    b.convertsWidths = true ↔
      LengthUnit.of? b.minSize = some .rem ∧ LengthUnit.of? b.minWidth = some .px := by
  simp [convertsWidths]

namespace FluidSize

theorem isUnitless_iff (size : FluidSize) :
    size.isUnitless = true ↔ LengthUnit.of? size.bounds.minSize = none := by
  rw [isUnitless, LengthUnit.of?_eq_none_iff]
  simp

/-- The interpolation of a fluid size. -/
def build (size : FluidSize) : Reporting Interpolation :=
  Interpolation.build size.site size.property.name size.bounds size.rootFontSize

end FluidSize

theorem endsWith_log (e : Event) : EndsWith (fun _ => True) none (Reporting.log e) :=
  fun _ _ => ⟨trivial, rfl⟩

theorem endsWith_warn (d : Diagnostic) : EndsWith (fun _ => True) none (Reporting.warn d) :=
  fun _ _ => ⟨trivial, rfl⟩

/-- The widths are brought into another unit unless they would have to be divided by zero. -/
theorem endsWith_reconcile (size : FluidSize) :
    EndsWith (fun _ => True) (if size.dividesByZero then some .divisionByZero else none)
      (Interpolation.reconcile size.site size.bounds (LengthUnit.of? size.bounds.minSize)
        (LengthUnit.of? size.bounds.minWidth) size.rootFontSize) := by
  unfold Interpolation.reconcile
  by_cases hconverts : size.bounds.convertsWidths = true
  · rw [if_pos (size.bounds.convertsWidths_iff.1 hconverts), FluidSize.dividesByZero, hconverts,
      Bool.true_and]
    by_cases hzero : (magnitude size.rootFontSize).isZero = true
    · rw [if_pos hzero, (pxToRem?_eq_none_iff _ _).2 hzero]
      exact EndsWith.throw _
    · rw [if_neg hzero]
      obtain ⟨lower, hlower⟩ := Option.ne_none_iff_exists'.1
        (mt (pxToRem?_eq_none_iff size.bounds.minWidth size.rootFontSize).1 hzero)
      obtain ⟨upper, hupper⟩ := Option.ne_none_iff_exists'.1
        (mt (pxToRem?_eq_none_iff size.bounds.maxWidth size.rootFontSize).1 hzero)
      rw [hlower, hupper]
      exact EndsWith.pure _
  · rw [if_neg (mt size.bounds.convertsWidths_iff.2 hconverts), FluidSize.dividesByZero,
      Bool.eq_false_iff.2 hconverts, Bool.false_and, if_neg Bool.false_ne_true]
    split
    · exact EndsWith.pure _
    · exact (endsWith_warn _).none_bind fun _ => EndsWith.pure _

/-- **A fluid size is interpolated unless it cannot be made.** -/
theorem endsWith_build (size : FluidSize) :
    EndsWith (fun _ => True) size.failure? size.build := by
  unfold FluidSize.build Interpolation.build FluidSize.failure?
  dsimp only
  by_cases hunit : size.isUnitless = true
  · rw [if_pos hunit, if_pos (size.isUnitless_iff.1 hunit)]
    exact EndsWith.throw_bind _ _
  · rw [if_neg hunit, if_neg (mt size.isUnitless_iff.2 hunit)]
    exact (endsWith_warn _).ite_bind
      ((endsWith_reconcile size).bind_none fun scaled => EndsWith.pure _)

/-! ## A plan -/

/-- What a rule of a store asks for. -/
def Forest.ruleBody (f : Forest) (rule : NodeId) : RuleBody :=
  ⟨f.site rule, (f.declared rule).map Declared.forget⟩

/-- Whether the store of a session has grown from a given one. -/
def Session.HasGrownFrom (f : Forest) (s : Session) : Prop :=
  s.forest.WellFormed ∧ f.GrowsTo s.forest

/-- The fluid sizes of a rule are those of its declarations that are expanded. -/
theorem FluidSize.ofRule_ruleBody (f : Forest) (options : Options) (rootFontSize : String)
    (rule : NodeId) :
    FluidSize.ofRule options rootFontSize (f.ruleBody rule) =
      (Declared.expanding (f.declared rule)).map fun entry =>
        ⟨f.site rule, entry.1,
          Declared.boundsOf entry.1 (options.defaults entry.1) (f.declared rule), rootFontSize⟩ := by
  have hproperties : (Declared.expanding ((f.declared rule).map Declared.forget)).map (·.1) =
      (Declared.expanding (f.declared rule)).map (·.1) :=
    Declared.map_fst_expandingFrom_map_forget [] [] _
  have hmap := congrArg (List.map fun p : Property => (⟨f.site rule, p,
    Declared.boundsOf p (options.defaults p) (f.declared rule), rootFontSize⟩ : FluidSize))
    hproperties
  rw [List.map_map, List.map_map] at hmap
  unfold FluidSize.ofRule ruleBody
  simp only [Declared.boundsOf_map_forget]
  exact hmap

namespace Run

variable {f : Forest} {options : Options} {rootFontSize : String} {rule : NodeId}

theorem endsWith_ofReporting {α : Type} {x : Reporting α} {o : Option Failure}
    (hx : EndsWith (fun _ => True) o x) :
    EndsWith (Session.HasGrownFrom f) o (ofReporting x) := by
  intro s hs
  obtain ⟨-, ho⟩ := hx s.report trivial
  unfold ofReporting
  cases h : x s.report with
  | ok a r =>
    rw [h] at ho
    exact ⟨hs, ho⟩
  | error e r =>
    rw [h] at ho
    exact ⟨hs, ho⟩

/-- The nodes of an interpolation are made without fail. -/
theorem endsWith_place (i : Interpolation) (rule : NodeId) :
    EndsWith (Session.HasGrownFrom f) none (ofEdit (i.place rule)) := by
  intro s hs
  obtain ⟨placed, g, hplace, hmade, -⟩ := place_ok hs.1 i rule
  rw [ofEdit, hplace]
  exact ⟨⟨hmade.wellFormed, hs.2.trans hmade.grows⟩, rfl⟩

theorem endsWith_planDeclaration (hf : f.WellFormed) (hrule : f.IsPlainRule rule) (p : Property)
    (d : Declared NodeId) (overridden : List (Declared NodeId)) :
    EndsWith (Session.HasGrownFrom f)
      (FluidSize.failure? ⟨f.site rule, p,
        Declared.boundsOf p (options.defaults p) (f.declared rule), rootFontSize⟩)
      (planDeclaration options rootFontSize rule p d overridden) := by
  refine EndsWith.get_bind fun s hs => ?_
  dsimp only
  rw [hrule.site_of_growsTo hf hs.1 hs.2, hrule.declared_of_growsTo hf hs.1 hs.2]
  refine (endsWith_ofReporting (endsWith_log _)).none_bind fun _ => ?_
  refine (endsWith_ofReporting (endsWith_build _)).bind_none fun output => ?_
  exact (endsWith_place output rule).none_bind fun placed => EndsWith.pure _

theorem endsWith_planRule (hf : f.WellFormed) (hrule : f.IsPlainRule rule) :
    EndsWith (Session.HasGrownFrom f)
      ((FluidSize.ofRule options rootFontSize (f.ruleBody rule)).findSome? FluidSize.failure?)
      (planRule options rootFontSize rule) := by
  rw [FluidSize.ofRule_ruleBody, List.findSome?_map]
  refine EndsWith.get_bind fun s hs => ?_
  dsimp only
  rw [hrule.declared_of_growsTo hf hs.1 hs.2]
  refine EndsWith.mapM _ fun entry _ => ?_
  rw [Function.comp_apply]
  exact endsWith_planDeclaration hf hrule _ _ _

/-- **A plan for rules fails for the first fluid size that cannot be made.** -/
theorem endsWith_planRules (hf : f.WellFormed) {rules : List NodeId}
    (hrules : ∀ rule ∈ rules, f.IsPlainRule rule) :
    EndsWith (Session.HasGrownFrom f)
      ((FluidSize.ofRules options rootFontSize (rules.map f.ruleBody)).findSome?
        FluidSize.failure?) (planRules options rootFontSize rules) := by
  induction rules generalizing rootFontSize with
  | nil => exact EndsWith.pure []
  | cons rule rules ih =>
    have hrule := hrules rule (by simp)
    have hrest : ∀ after, EndsWith (Session.HasGrownFrom f) _ (planRules options after rules) :=
      fun after => ih fun rule' hrule' => hrules rule' (by simp [hrule'])
    rw [List.map_cons, FluidSize.ofRules, List.findSome?_append]
    refine EndsWith.get_bind fun s hs => ?_
    dsimp only
    have hafter : rootFontSizeAfter (f.ruleBody rule).site.selector (f.ruleBody rule).declared
        rootFontSize = rootFontSizeAfter (s.forest.content rule).selector (s.forest.declared rule)
          rootFontSize := by
      rw [hs.2.content_eq hrule.lt_size, hrule.declared_of_growsTo hf hs.1 hs.2]
      exact Declared.rootFontSizeAfter_map_forget _ _ _
    rw [hafter]
    refine (endsWith_ofReporting (endsWith_log _)).ite_bind ?_
    exact (endsWith_planRule hf hrule).bind fun here =>
      (hrest _).bind_none fun further => EndsWith.pure _

end Run

/-! ## The rules of a sheet in a store -/

section Holds

variable {f : Forest} {input name : Option String} {root : NodeId}

/-- A rule in a store says what the rule of the tree says. -/
theorem ruleBody_of_holds (hf : f.WellFormed) (hcontent : f.content root = .root input name)
    {n : NodeId} {selector : String} {source : Option Position} {nodes : List Node}
    (hrule : f.IsPlainRule n) (hplain : nodes.all Node.isDeclaration = true)
    (h : f.Holds n (.rule selector source nodes)) (hroot : f.root? n = some root) :
    f.ruleBody n = ⟨⟨selector, source, input, name⟩, Node.declared nodes⟩ := by
  obtain ⟨hselector, hsource, hall⟩ := h
  have hsite : f.site n = ⟨selector, source, input, name⟩ := by
    rw [site, origin, hroot, Option.map_some, hcontent, hselector, hsource]
    rfl
  rw [ruleBody, hsite, hrule.declared_eq hf, declared_of_holdsAll hplain hall]

mutual

/-- The rules that a node in a sheet is or has below it are those of the tree that it holds. -/
theorem map_ruleBody_of_holds (hf : f.WellFormed) (hcontent : f.content root = .root input name)
    (t : Node) {n c : NodeId} (ht : t.isPlain = true) (h : f.Holds n t)
    (hc : f.parent n = some c) (hroot : f.root? c = some root) :
    ((n :: f.walk n).filter fun k => (f.content k).isRule).map f.ruleBody =
      t.ruleBodies input name := by
  have hn : n < f.size := lt_size_of_parent hc
  have hself : (f.content n).isRoot = false → f.root? n = some root := by
    intro hnot
    rw [hf.root?_eq, if_neg (by simp [hnot]), hc, Option.bind_some, hroot]
  have hchildless : (f.content n).isRule = false → f.children n = [] →
      ((n :: f.walk n).filter fun k => (f.content k).isRule).map f.ruleBody = [] := by
    intro hnot hchildren
    rw [hf.walk_of_no_children hchildren, List.filter_cons_of_neg (by simp [hnot])]
    rfl
  cases t with
  | declaration prop value source => exact hchildless (by rw [h.1]; rfl) h.2.2
  | rule selector source nodes =>
    have hrule : f.IsPlainRule n := isPlainRule_of_holds hn ht h
    rw [hrule.filter_walk hf, List.map_singleton,
      ruleBody_of_holds hf hcontent hrule ht h (hself (by rw [h.1]; rfl)), Node.ruleBodies]
  | atStatement atName params source => exact hchildless (by rw [h.1]; rfl) h.2.2
  | atBlock atName params source nodes =>
    obtain ⟨hatRule, -, hall⟩ := h
    rw [List.filter_cons_of_neg (by simp [hatRule, Content.isRule]), hf.walk_eq, Node.ruleBodies]
    exact map_ruleBody_of_holdsAll hf hcontent nodes ht hall (fun k hk => hf.parent_of_mem hk)
      (hself (by rw [hatRule]; rfl))

/-- The rules among nodes in a sheet and below them are those of the trees that they hold. -/
theorem map_ruleBody_of_holdsAll (hf : f.WellFormed)
    (hcontent : f.content root = .root input name) (ts : List Node) {ns : List NodeId}
    {c : NodeId} (hts : Node.arePlain ts = true) (h : f.HoldsAll ns ts)
    (hc : ∀ n ∈ ns, f.parent n = some c) (hroot : f.root? c = some root) :
    ((ns.flatMap fun n => n :: f.walk n).filter fun k => (f.content k).isRule).map f.ruleBody =
      Node.ruleBodiesAll input name ts := by
  cases ts with
  | nil =>
    cases ns with
    | nil => rfl
    | cons n ns => exact absurd h (by simp [HoldsAll])
  | cons t ts =>
    cases ns with
    | nil => exact absurd h (by simp [HoldsAll])
    | cons n ns =>
      rw [Node.arePlain, Bool.and_eq_true] at hts
      rw [List.flatMap_cons, List.filter_append, List.map_append, Node.ruleBodiesAll,
        map_ruleBody_of_holds hf hcontent t hts.1 h.1 (hc n (by simp)) hroot,
        map_ruleBody_of_holdsAll hf hcontent ts hts.2 h.2 (fun k hk => hc k (by simp [hk])) hroot]

end

end Holds

/-- The rules below the top of a sheet in a store are those of its tree. -/
theorem Forest.HoldsSheet.map_ruleBody {f : Forest} {root : NodeId} {sheet : Sheet}
    (h : f.HoldsSheet root sheet) (hf : f.WellFormed)
    (hplain : Node.arePlain sheet.nodes = true) :
    (f.rulesBelow root).map f.ruleBody =
      Node.ruleBodiesAll sheet.input sheet.name sheet.nodes := by
  have hroot : f.root? root = some root := by
    rw [hf.root?_eq, if_pos (by rw [h.content]; rfl)]
  rw [rulesBelow, hf.walk_eq]
  exact map_ruleBody_of_holdsAll hf h.content sheet.nodes hplain h.nodes
    (fun n hn => hf.parent_of_mem hn) hroot

/-! ## Texts -/

/-- **A plan for a sheet fails for its first fluid size that cannot be made.** -/
theorem failure?_plan {css : String} {name : Option String} {sheet : Sheet}
    (hparse : Sheet.parse css name = .ok sheet) (options : Options) :
    failure? (Run.plan options sheet.session.1 sheet.session.2) =
      (sheet.fluidSizes options).findSome? FluidSize.failure? := by
  obtain ⟨hs, hsheet⟩ := sheet.session_ok
  have hplain := arePlain_of_parse hparse
  have hrules := hsheet.rulesHoldDeclarations hs hplain
  have hends : EndsWith _ _ (Run.planRules options options.rootFontSize _) :=
    Run.endsWith_planRules hs fun rule hrule => hrules.isPlainRule hs hrule
  rw [hsheet.map_ruleBody hs hplain] at hends
  exact (hends sheet.session.2 ⟨hs, .refl _⟩).2

/-- A text all of whose fluid sizes can be made is processed, and the tree is printed that the
recursion over the sheet gives. -/
theorem exists_process_of_findSome? {css : String} {name : Option String} {sheet : Sheet}
    (hparse : Sheet.parse css name = .ok sheet) {options : Options}
    (h : (sheet.fluidSizes options).findSome? FluidSize.failure? = none) :
    ∃ ex r p, sheet.expanded options .empty = .ok ex r ∧ process options css name = .ok p ∧
      p.css = Node.toCss ex.nodes ∧ p.report.warnings = r.warnings := by
  rw [← failure?_plan hparse options] at h
  obtain ⟨es, t, hplan⟩ := exists_ok_of_failure?_eq_none h
  obtain ⟨ex, p, hexpanded, hprocess, hcss, hwarnings⟩ := process_of_plan_ok hparse hplan
  exact ⟨ex, t.report, p, hexpanded, hprocess, hcss, hwarnings⟩

namespace Phrase

mutual

/-- It is known of a rule that has been read where it was read from. -/
theorem site_of_mem_ruleBodies (input name : Option String) (p : Phrase) :
    ∀ body ∈ Node.ruleBodiesAll input name p.nodes, ∃ selector place,
      body.site = ⟨selector, some place, input, name⟩ := by
  cases p with
  | declaration prop colon value => exact fun body h => absurd h List.not_mem_nil
  | semicolon mark => exact fun body h => absurd h List.not_mem_nil
  | rule selector opening phrases closing =>
    intro body h
    obtain rfl := List.mem_singleton.1 h
    exact ⟨_, selector.position, rfl⟩
  | atStatement keyword params ending => exact fun body h => absurd h List.not_mem_nil
  | atBlock keyword params opening phrases closing =>
    intro body h
    refine site_of_mem_ruleBodiesAll input name phrases body ?_
    simpa [nodes, Node.ruleBodiesAll, Node.ruleBodies] using h

theorem site_of_mem_ruleBodiesAll (input name : Option String) (ps : List Phrase) :
    ∀ body ∈ Node.ruleBodiesAll input name (nodesAll ps), ∃ selector place,
      body.site = ⟨selector, some place, input, name⟩ := by
  cases ps with
  | nil => exact fun body h => absurd h List.not_mem_nil
  | cons p ps =>
    intro body h
    rw [nodesAll, Node.ruleBodiesAll_append, List.mem_append] at h
    rcases h with h | h
    · exact site_of_mem_ruleBodies input name p body h
    · exact site_of_mem_ruleBodiesAll input name ps body h

end

end Phrase

/-- A fluid size is one of a rule. -/
theorem FluidSize.exists_of_mem_ofRules {options : Options} {rootFontSize : String}
    {rules : List RuleBody} {size : FluidSize}
    (h : size ∈ FluidSize.ofRules options rootFontSize rules) :
    ∃ rule ∈ rules, size.site = rule.site := by
  induction rules generalizing rootFontSize with
  | nil => exact absurd h List.not_mem_nil
  | cons rule rules ih =>
    rw [FluidSize.ofRules, List.mem_append] at h
    rcases h with h | h
    · obtain ⟨entry, -, rfl⟩ := List.mem_map.1 h
      exact ⟨rule, by simp, rfl⟩
    · obtain ⟨rule', hrule', hsite⟩ := ih h
      exact ⟨rule', by simp [hrule'], hsite⟩

/-- It is known of a fluid size of a sheet that has been read where its rule was read from. -/
theorem site_of_mem_fluidSizes {css : String} {name : Option String} {sheet : Sheet}
    (hparse : Sheet.parse css name = .ok sheet) {options : Options} {size : FluidSize}
    (h : size ∈ sheet.fluidSizes options) :
    ∃ selector place, size.site = ⟨selector, some place, some css, name⟩ := by
  obtain ⟨hnodes, hinput, hname⟩ := (parse_eq_ok_iff css name sheet).1 hparse
  obtain ⟨ps, -, hps⟩ := (parseNodes_eq_ok_iff _ _).1 hnodes
  obtain ⟨body, hbody, hsite⟩ := FluidSize.exists_of_mem_ofRules h
  rw [← hps, hinput, hname] at hbody
  rw [hsite]
  exact Phrase.site_of_mem_ruleBodiesAll _ _ ps body hbody

/-- A fluid size can be made exactly if it has a unit and nothing is divided by zero. -/
theorem FluidSize.failure?_eq_none_iff (size : FluidSize) :
    size.failure? = none ↔ size.isUnitless = false ∧ size.dividesByZero = false := by
  unfold failure?
  cases size.isUnitless <;> cases size.dividesByZero <;> simp

theorem FluidSize.failure?_eq_some_iff (size : FluidSize) (e : Failure) :
    size.failure? = some e ↔
      size.isUnitless = true ∧ e = .css (size.site.error .unitlessSize) ∨
        size.isUnitless = false ∧ size.dividesByZero = true ∧ e = .divisionByZero := by
  unfold failure?
  cases size.isUnitless <;> cases size.dividesByZero <;> simp [eq_comm]

/-- Processing a text that is read fails as the first of its fluid sizes does that cannot be
made. -/
theorem process_eq_error_iff_of_parse {css : String} {name : Option String} {sheet : Sheet}
    (hparse : Sheet.parse css name = .ok sheet) (options : Options) (e : Failure) :
    process options css name = .error e ↔
      (sheet.fluidSizes options).findSome? FluidSize.failure? = some e := by
  rw [← failure?_plan hparse options]
  cases hplan : Run.plan options sheet.session.1 sheet.session.2 with
  | ok es t =>
    obtain ⟨ex, p, -, hprocess, -⟩ := process_of_plan_ok hparse hplan
    rw [hprocess]
    simp [failure?]
  | error e' t =>
    rw [process_of_plan_error hparse hplan]
    simp [failure?]

/-- **A text is refused where it cannot be read, and for the first fluid size that cannot be made**,
and for nothing else. The error for a fluid size without a unit has the name of the pass, the whole
text, and the place of the rule; the one for a root font size of zero is none of a style sheet. -/
theorem process_eq_error_iff (options : Options) (css : String) (name : Option String)
    (e : Failure) :
    process options css name = .error e ↔
      (∃ refusal, Sheet.parse css name = .error refusal ∧ e = .css refusal) ∨
      ∃ (sheet : Sheet) (before : List FluidSize) (size : FluidSize) (after : List FluidSize),
        Sheet.parse css name = .ok sheet ∧ sheet.fluidSizes options = before ++ size :: after ∧
        (∀ other ∈ before, other.isUnitless = false ∧ other.dividesByZero = false) ∧
        ((size.isUnitless = true ∧ ∃ place, size.site.source = some place ∧
            e = .css ⟨.unitlessSize, some place.line, some place.column, some css, name,
              some passName⟩) ∨
          (size.isUnitless = false ∧ size.dividesByZero = true ∧ e = .divisionByZero)) := by
  cases hparse : Sheet.parse css name with
  | error refusal =>
    rw [process, processWith, hparse]
    constructor
    · intro h
      exact .inl ⟨refusal, rfl, (Except.error.inj h).symm⟩
    · rintro (⟨refusal', hrefusal, rfl⟩ | ⟨sheet, _, _, _, hsheet, -⟩)
      · rw [Except.error.inj hrefusal]
      · exact absurd hsheet (by simp)
  | ok sheet =>
    rw [process_eq_error_iff_of_parse hparse, List.findSome?_eq_some_iff]
    simp only [FluidSize.failure?_eq_none_iff, FluidSize.failure?_eq_some_iff]
    constructor
    · rintro ⟨before, size, after, hsizes, hfails, hbefore⟩
      refine .inr ⟨sheet, before, size, after, rfl, hsizes, hbefore, hfails.imp_left ?_⟩
      rintro ⟨hunitless, rfl⟩
      have hsize : size ∈ sheet.fluidSizes options := by simp [hsizes]
      obtain ⟨selector, place, hsite⟩ := site_of_mem_fluidSizes hparse hsize
      exact ⟨hunitless, place, by rw [hsite], by rw [hsite]; rfl⟩
    · rintro (⟨refusal, hrefusal, -⟩ | ⟨sheet', before, size, after, hsheet', hsizes, hbefore, hfails⟩)
      · exact absurd hrefusal (by simp)
      · obtain rfl := Except.ok.inj hsheet'
        refine ⟨before, size, after, hsizes, hfails.imp_left ?_, hbefore⟩
        rintro ⟨hunitless, place, hplace, rfl⟩
        have hsize : size ∈ sheet.fluidSizes options := by simp [hsizes]
        obtain ⟨selector, place', hsite⟩ := site_of_mem_fluidSizes hparse hsize
        rw [hsite] at hplace
        obtain rfl := Option.some.inj hplace
        exact ⟨hunitless, by rw [hsite]; rfl⟩

/-- A sheet with a root font size of zero and two fluid sizes, the second without a unit. -/
def zeroRootFontSize : String :=
  ":root\x7bfont-size:0px\x7d .a\x7bfont-size:fluid 1rem 2rem\x7d .b\x7bfont-size:fluid 1 2\x7d"

/-- A fluid size without a unit is not what the sheet is refused for. -/
theorem process_zeroRootFontSize :
    ∃ sheet, Sheet.parse zeroRootFontSize none = .ok sheet ∧
      (sheet.fluidSizes Options.builtin).map FluidSize.isUnitless = [false, true] ∧
      process Options.builtin zeroRootFontSize none = .error .divisionByZero := by
  obtain ⟨sheet, hparse, hunitless, hfails⟩ :
      ∃ sheet, Sheet.parse zeroRootFontSize none = .ok sheet ∧
        (sheet.fluidSizes Options.builtin).map FluidSize.isUnitless = [false, true] ∧
        (sheet.fluidSizes Options.builtin).findSome? FluidSize.failure? = some .divisionByZero := by
    decide +kernel
  exact ⟨sheet, hparse, hunitless, (process_eq_error_iff_of_parse hparse _ _).2 hfails⟩

end FluidCss
