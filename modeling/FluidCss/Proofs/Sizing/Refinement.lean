import FluidCss.Proofs.Sizing.RuleRefinement

set_option autoImplicit false

/-! # A run on a store refines the recursion over the tree

A sheet is walked through in a store, all expansions are worked out, and then they are carried out
one after the other; `Sheet.expanded` goes through the tree once. What the store holds in the end is
the tree that the recursion gives. -/

namespace FluidCss

open Forest

/-! ## Parts of a plan -/

namespace Forest

variable {f : Forest} {options : Options} {size last : String} {rule : NodeId}

/-- Interpolations for rules are worked out part by part. -/
theorem interpolations_append (f : Forest) (options : Options) (size : String)
    (rules rules' : List NodeId) :
    f.interpolations options size (rules ++ rules') = (do
      let (mid, here) ← f.interpolations options size rules
      let (last, further) ← f.interpolations options mid rules'
      pure (last, here ++ further)) := by
  induction rules generalizing size with
  | nil => simp [interpolations]
  | cons rule rules ih =>
    rw [List.cons_append, interpolations, interpolations]
    dsimp only
    split <;> simp [ih, List.append_assoc]

theorem length_interpolationsOf
    {entries : List (Property × Declared NodeId × List (Declared NodeId))}
    {outputs : List Interpolation} {r r' : Report}
    (h : f.interpolationsOf options size rule entries r = .ok outputs r') :
    outputs.length = entries.length := by
  induction entries generalizing outputs r r' with
  | nil =>
    obtain ⟨rfl, -⟩ := pure_eq_ok_iff.1 h
    rfl
  | cons entry entries ih =>
    rw [interpolationsOf_cons] at h
    obtain ⟨i, r₁, -, h⟩ := bind_eq_ok_iff.1 h
    obtain ⟨rest, r₂, hrest, h⟩ := bind_eq_ok_iff.1 h
    obtain ⟨rfl, -⟩ := pure_eq_ok_iff.1 h
    rw [List.length_cons, List.length_cons, ih hrest]

/-- For one rule, the root font size may change before its declarations are looked at. -/
theorem interpolations_singleton (f : Forest) (options : Options) (size : String)
    (rule : NodeId) :
    f.interpolations options size [rule] = (do
      let selector := (f.content rule).selector
      let after := rootFontSizeAfter selector (f.declared rule) size
      if after ≠ size then Reporting.log (.rootSizeSet after selector)
      let here ← f.interpolationsOf options after rule (Declared.expanding (f.declared rule))
      pure (after, here)) := by
  rw [interpolations]
  simp [interpolations]

/-- What has been worked out for one rule. -/
theorem interpolations_singleton_ok {outputs : List Interpolation} {r r' : Report}
    (h : f.interpolations options size [rule] r = .ok (last, outputs) r') :
    last = rootFontSizeAfter (f.content rule).selector (f.declared rule) size ∧
      ∃ r₁, (if last ≠ size then
          ∃ u, Reporting.log (.rootSizeSet last (f.content rule).selector) r = .ok u r₁
        else r₁ = r) ∧
        f.interpolationsOf options last rule (Declared.expanding (f.declared rule)) r₁ =
          .ok outputs r' := by
  rw [interpolations_singleton] at h
  dsimp only at h
  generalize rootFontSizeAfter (f.content rule).selector (f.declared rule) size = after at h ⊢
  obtain ⟨r₁, hlog, h⟩ := ite_bind_eq_ok_iff.1 h
  obtain ⟨here, r₂, hhere, h⟩ := bind_eq_ok_iff.1 h
  obtain ⟨heq, rfl⟩ := pure_eq_ok_iff.1 h
  obtain ⟨rfl, rfl⟩ := Prod.mk.inj heq
  exact ⟨rfl, r₁, hlog, hhere⟩

/-- There is one interpolation for each expanded declaration. -/
theorem length_interpolations {rules : List NodeId} {outputs : List Interpolation}
    {r r' : Report} (h : f.interpolations options size rules r = .ok (last, outputs) r') :
    outputs.length = (rules.flatMap f.keys).length := by
  induction rules generalizing size outputs r r' with
  | nil =>
    obtain ⟨heq, -⟩ := pure_eq_ok_iff.1 h
    obtain ⟨-, rfl⟩ := Prod.mk.inj heq
    rfl
  | cons rule rules ih =>
    rw [← List.singleton_append, interpolations_append] at h
    obtain ⟨⟨mid, here⟩, r₁, hhere, h⟩ := bind_eq_ok_iff.1 h
    obtain ⟨⟨last', further⟩, r₂, hfurther, h⟩ := bind_eq_ok_iff.1 h
    obtain ⟨heq, -⟩ := pure_eq_ok_iff.1 h
    obtain ⟨rfl, rfl⟩ := Prod.mk.inj heq
    obtain ⟨-, r₃, -, hhere⟩ := interpolations_singleton_ok hhere
    rw [List.length_append, length_interpolationsOf hhere, ih hfurther, List.flatMap_cons,
      List.length_append, keys, List.length_map]

end Forest

/-- What is known of the part of a plan that belongs to some rules: it has the interpolations for
the rules, and it is known which declarations it expands. -/
structure PlanPart (f : Forest) (options : Options) (rules : List NodeId) (es : List Expansion)
    (size last : String) (r r' : Report) : Prop where
  run_eq : f.interpolations options size rules r = .ok (last, es.map (·.output)) r'
  keys_eq : es.map Expansion.key = rules.flatMap f.keys

namespace PlanPart

variable {f : Forest} {options : Options} {size last : String} {rules rules' : List NodeId}
  {es : List Expansion} {r r' : Report} {rule : NodeId}

theorem of_nil (h : PlanPart f options [] es size last r r') : es = [] ∧ last = size ∧ r' = r := by
  obtain ⟨heq, rfl⟩ := pure_eq_ok_iff.1 h.run_eq
  obtain ⟨rfl, -⟩ := Prod.mk.inj heq
  have hes : es = [] := by simpa using h.keys_eq
  exact ⟨hes, rfl, rfl⟩

/-- A part for rules that follow each other is one for the first of them and one for the others. -/
theorem split (h : PlanPart f options (rules ++ rules') es size last r r') :
    ∃ here further mid r₁, es = here ++ further ∧ PlanPart f options rules here size mid r r₁ ∧
      PlanPart f options rules' further mid last r₁ r' := by
  have hkeys := h.keys_eq
  rw [List.flatMap_append] at hkeys
  obtain ⟨here, further, rfl, hhere, hfurther⟩ := List.map_eq_append_iff.1 hkeys
  have hrun := h.run_eq
  rw [Forest.interpolations_append] at hrun
  obtain ⟨⟨mid, outputs⟩, r₁, hfirst, hrun⟩ := bind_eq_ok_iff.1 hrun
  obtain ⟨⟨last', outputs'⟩, r₂, hrest, hrun⟩ := bind_eq_ok_iff.1 hrun
  obtain ⟨heq, rfl⟩ := pure_eq_ok_iff.1 hrun
  obtain ⟨rfl, houtputs⟩ := Prod.mk.inj heq
  have hlength : outputs.length = (here.map (·.output)).length := by
    rw [Forest.length_interpolations hfirst, ← hhere, List.length_map, List.length_map]
  -- the outputs are split where the expansions are
  rw [List.map_append] at houtputs
  obtain ⟨rfl, rfl⟩ := List.append_inj houtputs hlength
  exact ⟨here, further, mid, r₁, rfl, ⟨hfirst, hhere⟩, hrest, hfurther⟩

/-- All expansions of a part for one rule belong to it. -/
theorem rule_eq (h : PlanPart f options [rule] es size last r r') :
    ∀ e ∈ es, e.rule = rule := by
  intro e he
  have hmem : e.key ∈ es.map Expansion.key := List.mem_map_of_mem he
  rw [h.keys_eq, List.flatMap_singleton] at hmem
  obtain ⟨entry, -, hentry⟩ := List.mem_map.1 hmem
  exact (congrArg (·.1) hentry).symm

end PlanPart

/-- Of the expansions of a plan, those of one rule. -/
theorem Planned.filter_keys {f p : Forest} {rules : List NodeId} {es : List Expansion}
    (h : Planned f p es (rules.flatMap f.keys)) (hnodup : rules.Nodup) {rule : NodeId}
    (hrule : rule ∈ rules) :
    (es.filter fun e => e.rule == rule).map Expansion.key = f.keys rule := by
  -- the keys of a rule name the rule, so those of one rule are kept and all others are not
  have hkeys : ∀ k, (f.keys k).filter (fun key => key.1 == rule) =
      if k = rule then f.keys k else [] := by
    intro k
    split
    · next hk =>
      refine List.filter_eq_self.2 ?_
      intro key hkey
      obtain ⟨entry, -, rfl⟩ := List.mem_map.1 hkey
      simpa [keyOf] using hk
    · next hk =>
      refine List.filter_eq_nil_iff.2 ?_
      intro key hkey
      obtain ⟨entry, -, rfl⟩ := List.mem_map.1 hkey
      simpa [keyOf] using hk
  have hfilter : (es.filter fun e => e.rule == rule).map Expansion.key =
      (es.map Expansion.key).filter fun key => key.1 == rule := by
    rw [List.filter_map]
    rfl
  rw [hfilter, h.keys_eq, List.filter_flatMap]
  simp only [hkeys]
  obtain ⟨before, behind, rfl⟩ := List.append_of_mem hrule
  have hnot := not_mem_of_nodup_middle hnodup
  have hnil : ∀ ks : List NodeId, rule ∉ ks →
      (ks.flatMap fun k => if k = rule then f.keys k else []) = [] := by
    intro ks hks
    refine List.flatMap_eq_nil_iff.2 fun k hk => if_neg ?_
    rintro rfl
    exact hks hk
  rw [List.flatMap_append, List.flatMap_cons, hnil before hnot.1, hnil behind hnot.2, if_pos rfl,
    List.nil_append, List.append_nil]

/-! ## The tree of a sheet -/

namespace Carried

variable {f p g : Forest} {rules : List NodeId} {es : List Expansion} {options : Options}
  {root : NodeId} {input name : Option String}

/-- A part of a plan for one rule has all expansions of the rule. -/
theorem filter_eq (h : Carried f p g rules es) {rule : NodeId} (hrule : rule ∈ rules)
    {here : List Expansion} {size last : String} {r r' : Report} (hsub : here.Sublist es)
    (hpart : PlanPart f options [rule] here size last r r') :
    (es.filter fun e => e.rule == rule) = here := by
  have hhere : here.filter (fun e => e.rule == rule) = here :=
    List.filter_eq_self.2 fun e he => beq_iff_eq.2 (hpart.rule_eq e he)
  have hsub' := hsub.filter fun e => e.rule == rule
  rw [hhere] at hsub'
  -- they are among the expansions of the rule, and as many
  refine (hsub'.eq_of_length ?_).symm
  have hlength := congrArg List.length (h.planned.filter_keys h.nodup hrule)
  have hlength' := congrArg List.length hpart.keys_eq
  rw [List.length_map] at hlength hlength'
  rw [hlength, hlength', List.flatMap_singleton]

/-- A node in a sheet that is not the top of one belongs to the sheet of its parent. -/
theorem root?_eq (h : Carried f p g rules es) {n c : NodeId} (hn : (f.content n).isRoot = false)
    (hc : f.parent n = some c) : f.root? n = f.root? c := by
  rw [h.wellFormed.root?_eq, if_neg (by simp [hn]), hc, Option.bind_some]

/-- **What becomes of a rule** and the declarations in it is what the recursion says. -/
theorem expanded_rule (h : Carried f p g rules es) {n : NodeId} (hn : n ∈ rules)
    {selector : String} {source : Option Position} {nodes : List Node}
    (hplain : nodes.all Node.isDeclaration = true)
    (hold : f.Holds n (.rule selector source nodes)) (hroot : f.root? n = some root)
    (hcontent : f.content root = .root input name) {here : List Expansion}
    (hsub : here.Sublist es) {size last : String} {r r' : Report}
    (hpart : PlanPart f options [n] here size last r r') :
    ∃ nodes', (Node.rule selector source nodes).expanded options input name size r =
        .ok ⟨last, here.map (·.output), nodes'⟩ r' ∧
      g.HoldsAll (Expansion.images es n) nodes' := by
  have hrule := h.plain n hn
  obtain ⟨hselector, hsource, hall⟩ := hold
  have hsite : f.site n = ⟨selector, source, input, name⟩ := by
    rw [site, origin, hroot, Option.map_some, hcontent, hselector, hsource]
    rfl
  have hname : (f.content n).selector = selector := by rw [hselector]; rfl
  obtain ⟨hlast, r₁, hlog, houtputs⟩ := interpolations_singleton_ok hpart.run_eq
  rw [hname] at hlast hlog
  have hkeys := hpart.keys_eq
  rw [List.flatMap_singleton, keys] at hkeys
  rw [hrule.declared_eq h.wellFormed] at houtputs hkeys
  obtain ⟨inside, hinside, hheld⟩ := h.expandedInRule_ok hn hplain hall hplain
    (List.nil_append _).symm hall (fun e he => hsub.subset he) ⟨houtputs, hkeys⟩
  refine ⟨.rule selector source inside :: Node.mediaBlocks (here.map (·.output)), ?_, ?_⟩
  · have hafter : rootFontSizeAfter selector (Node.declared nodes) size = last := by
      rw [declared_of_holdsAll hplain hall, Declared.rootFontSizeAfter_map_forget,
        ← hrule.declared_eq h.wellFormed, hlast]
    rw [Node.expanded, hafter]
    refine ite_bind_eq_ok_iff.2 ⟨r₁, hlog, ?_⟩
    rw [← hsite, interpolate_of_holdsAll h.wellFormed hrule hplain hall, bind_of_ok hinside]
    rfl
  · rw [h.images_rule hrule.isRule, h.filter_eq hn hsub hpart]
    refine ⟨⟨?_, ?_, ?_⟩, h.holdsAll_mediaIds fun e he => hsub.subset he⟩
    · rw [h.content_eq hrule.lt_size, hselector]
    · rw [h.source_eq hrule.lt_size, hsource]
    · rw [h.children_eq hrule.lt_size]
      exact hheld

/-- A node that is no rule and in which nothing stands stays as it is. -/
theorem expanded_childless (h : Carried f p g rules es) {t : Node} {n : NodeId}
    {size last : String} (ht : t.expanded options input name size = pure ⟨size, [], [t]⟩)
    (hheld : g.Holds n t) (hstays : Expansion.images es n = [n])
    (hnot : (f.content n).isRule = false) (hchildren : f.children n = []) {here : List Expansion}
    {r r' : Report}
    (hpart : PlanPart f options ((n :: f.walk n).filter fun k => (f.content k).isRule) here
      size last r r') :
    ∃ nodes', t.expanded options input name size r =
        .ok ⟨last, here.map (·.output), nodes'⟩ r' ∧
      g.HoldsAll (Expansion.images es n) nodes' := by
  rw [h.wellFormed.walk_of_no_children hchildren, List.filter_cons_of_neg (by simp [hnot])]
    at hpart
  obtain ⟨rfl, rfl, rfl⟩ := hpart.of_nil
  rw [hstays, ht]
  exact ⟨[t], rfl, hheld, trivial⟩

mutual

/-- **What becomes of a node**, with all that is below it and put behind it, is what the recursion
says. -/
theorem expanded_ok (h : Carried f p g rules es) (hcontent : f.content root = .root input name)
    (t : Node) {n c : NodeId} (ht : t.isPlain = true) (hold : f.Holds n t)
    (hc : f.parent n = some c) (hc_rule : (f.content c).isRule = false)
    (hc_root : f.root? c = some root)
    (hrules : ∀ k ∈ (n :: f.walk n).filter (fun k => (f.content k).isRule), k ∈ rules)
    {here : List Expansion} (hsub : here.Sublist es) {size last : String} {r r' : Report}
    (hpart : PlanPart f options ((n :: f.walk n).filter fun k => (f.content k).isRule) here
      size last r r') :
    ∃ nodes', t.expanded options input name size r =
        .ok ⟨last, here.map (·.output), nodes'⟩ r' ∧
      g.HoldsAll (Expansion.images es n) nodes' := by
  have hn : n < f.size := lt_size_of_parent hc
  have hstays : (f.content n).isRule = false → Expansion.images es n = [n] := by
    intro hnot
    exact Expansion.images_of_untouched (h.untouched_of_parent hnot fun c' hc' => by
      rw [hc] at hc'
      rwa [← Option.some.inj hc'])
  cases t with
  | declaration prop value source =>
    have hnot : (f.content n).isRule = false := by rw [hold.1]; rfl
    exact h.expanded_childless rfl (h.holds_declaration hn hold) (hstays hnot) hnot hold.2.2 hpart
  | rule selector source nodes =>
    have hrule : f.IsPlainRule n := isPlainRule_of_holds hn ht hold
    have hself : (n :: f.walk n).filter (fun k => (f.content k).isRule) = [n] := by
      rw [List.filter_cons_of_pos (by simp [hrule.isRule]), hrule.walk_eq h.wellFormed,
        List.filter_eq_nil_iff.2]
      intro d hd
      have hdecl := hrule.isDeclaration d hd
      cases hcd : f.content d <;> simp_all [Content.isDeclaration, Content.isRule]
    rw [hself] at hrules hpart
    have hroot : f.root? n = some root := by
      rw [h.root?_eq (by rw [hold.1]; rfl) hc, hc_root]
    exact h.expanded_rule (hrules n (by simp)) ht hold hroot hcontent hsub hpart
  | atStatement atName params source =>
    have hnot : (f.content n).isRule = false := by rw [hold.1]; rfl
    exact h.expanded_childless rfl (h.holds_atStatement hn hold) (hstays hnot) hnot hold.2.2 hpart
  | atBlock atName params source nodes =>
    obtain ⟨hatRule, hsource, hall⟩ := hold
    have hnot : (f.content n).isRule = false := by rw [hatRule]; rfl
    rw [List.filter_cons_of_neg (by simp [hnot]), h.wellFormed.walk_eq] at hrules hpart
    have hroot : f.root? n = some root := by
      rw [h.root?_eq (by rw [hatRule]; rfl) hc, hc_root]
    obtain ⟨inside, hinside, hheld⟩ := expandedAll_ok h hcontent nodes ht hall
      (fun k hk => h.wellFormed.parent_of_mem hk) hnot hroot hrules hsub hpart
    rw [hstays hnot]
    refine ⟨[.atBlock atName params source inside], ?_, ⟨?_, ?_, ?_⟩, trivial⟩
    · rw [Node.expanded, bind_of_ok hinside]
      rfl
    · rw [h.content_eq hn, hatRule]
    · rw [h.source_eq hn, hsource]
    · rw [h.children_eq hn]
      exact hheld

/-- What becomes of nodes that follow each other is what the recursion says. -/
theorem expandedAll_ok (h : Carried f p g rules es) (hcontent : f.content root = .root input name)
    (ts : List Node) {ns : List NodeId} {c : NodeId} (hts : Node.arePlain ts = true)
    (hold : f.HoldsAll ns ts) (hc : ∀ n ∈ ns, f.parent n = some c)
    (hc_rule : (f.content c).isRule = false) (hc_root : f.root? c = some root)
    (hrules : ∀ k ∈ (ns.flatMap fun n => n :: f.walk n).filter (fun k => (f.content k).isRule),
      k ∈ rules)
    {here : List Expansion} (hsub : here.Sublist es) {size last : String} {r r' : Report}
    (hpart : PlanPart f options
      ((ns.flatMap fun n => n :: f.walk n).filter fun k => (f.content k).isRule) here
      size last r r') :
    ∃ nodes', Node.expandedAll options input name size ts r =
        .ok ⟨last, here.map (·.output), nodes'⟩ r' ∧
      g.HoldsAll (ns.flatMap (Expansion.images es)) nodes' := by
  cases ts with
  | nil =>
    cases ns with
    | nil =>
      obtain ⟨rfl, rfl, rfl⟩ := hpart.of_nil
      exact ⟨[], rfl, trivial⟩
    | cons n ns => exact absurd hold (by simp [HoldsAll])
  | cons t ts =>
    cases ns with
    | nil => exact absurd hold (by simp [HoldsAll])
    | cons n ns =>
      rw [Node.arePlain, Bool.and_eq_true] at hts
      rw [List.flatMap_cons, List.filter_append] at hrules hpart
      obtain ⟨first, rest, mid, r₁, rfl, hfirst, hrest⟩ := hpart.split
      obtain ⟨nodes₁, hrun₁, hheld₁⟩ := expanded_ok h hcontent t hts.1 hold.1 (hc n (by simp))
        hc_rule hc_root (fun k hk => hrules k (List.mem_append_left _ hk))
        ((List.sublist_append_left _ _).trans hsub) hfirst
      obtain ⟨nodes₂, hrun₂, hheld₂⟩ := expandedAll_ok h hcontent ts hts.2 hold.2
        (fun k hk => hc k (by simp [hk])) hc_rule hc_root
        (fun k hk => hrules k (List.mem_append_right _ hk))
        ((List.sublist_append_right _ _).trans hsub) hrest
      refine ⟨nodes₁ ++ nodes₂, ?_, ?_⟩
      · rw [Node.expandedAll, bind_of_ok hrun₁]
        dsimp only
        rw [bind_of_ok hrun₂, List.map_append]
        rfl
      · rw [List.flatMap_cons]
        exact holdsAll_append hheld₁ hheld₂

end

end Carried

/-- The top of a sheet is a node of the store. -/
theorem Forest.HoldsSheet.lt_size {f : Forest} {root : NodeId} {sheet : Sheet}
    (h : f.HoldsSheet root sheet) : root < f.size := by
  by_contra hroot
  have hcontent := h.content
  rw [Forest.content, cell_of_size_le (Nat.le_of_not_lt hroot)] at hcontent
  exact absurd hcontent (by simp [Cell.absent])

/-- **A run leaves the tree that the recursion gives.** Where a sheet that has been read stands in a
store whose links agree, and its expansions can be planned, the recursion over the sheet gives a
tree with the planned interpolations and reports the same; the run succeeds, and the store then
holds this tree in the place of the sheet, with links that agree. -/
theorem apply_eq_expanded {css : String} {name : Option String} {sheet : Sheet}
    (hparse : Sheet.parse css name = .ok sheet) {s : Session} {root : NodeId}
    (hs : s.forest.WellFormed) (hsheet : s.forest.HoldsSheet root sheet) {options : Options}
    {es : List Expansion} {t : Session} (hplan : Run.plan options root s = .ok es t) :
    ∃ ex u, sheet.expanded options s.report = .ok ex t.report ∧
      ex.outputs = es.map (·.output) ∧ Run.apply options root s = .ok () u ∧
      u.forest.WellFormed ∧ u.forest.HoldsSheet root { sheet with nodes := ex.nodes } ∧
      u.forest.nodesBelow? root = some ex.nodes := by
  have hplain := arePlain_of_parse hparse
  have hrules := hsheet.rulesHoldDeclarations hs hplain
  obtain ⟨⟨last, hinterpolations⟩, hplanned⟩ := Run.plan_ok hs hrules hplan
  have hready := Run.ready_of_plan_ok hs hrules hplan
  obtain ⟨u, hu, hmoved⟩ := Run.expandAll_ok hready
  have hcarried : Carried s.forest t.forest u.forest (s.forest.rulesBelow root) es :=
    ⟨hs, fun _ hrule => hrules.isPlainRule hs hrule, hs.nodup_rulesBelow root, hplanned, hready,
      hmoved⟩
  have hlt := hsheet.lt_size
  have hroot : s.forest.root? root = some root := by
    rw [hs.root?_eq, if_pos (by rw [hsheet.content]; rfl)]
  have hbelow : s.forest.rulesBelow root =
      ((s.forest.children root).flatMap fun n => n :: s.forest.walk n).filter
        fun k => (s.forest.content k).isRule := by rw [rulesBelow, hs.walk_eq]
  rw [hbelow] at hinterpolations hplanned
  obtain ⟨nodes, hnodes, hheld⟩ := hcarried.expandedAll_ok hsheet.content sheet.nodes hplain
    hsheet.nodes (fun n hn => hs.parent_of_mem hn) (by rw [hsheet.content]; rfl) hroot
    (fun k hk => hbelow ▸ hk) (List.Sublist.refl es) ⟨hinterpolations, hplanned.keys_eq⟩
  -- nothing but the report is touched after the last expansion
  rw [← hcarried.children_eq hlt] at hheld
  obtain ⟨r, hlog⟩ : ∃ r, Run.ofReporting (Reporting.log (.applied es.length)) u =
    .ok () { u with report := r } := ⟨_, Run.ofReporting_log _ _⟩
  refine ⟨⟨last, es.map Expansion.output, nodes⟩, { u with report := r }, hnodes, rfl, ?_,
    hmoved.wellFormed, ⟨?_, hheld⟩, hmoved.wellFormed.nodesBelow?_of_holds hheld⟩
  · rw [Run.apply, bind_of_ok hplan, bind_of_ok hu, hlog]
  · exact (hcarried.content_eq hlt).trans hsheet.content

/-- A sheet in which a fluid declaration is overridden, inside an at-rule. -/
def overriddenSize : String :=
  "@media print\x7b.a\x7bfont-size:fluid;color:red;font-size:fluid\x7d\x7d"

/-- Whether a text is read and the plan for it has an expansion. -/
def plansExpansion (options : Options) (css : String) : Bool :=
  match Sheet.parse css none with
  | .ok sheet => givesResult (!·.isEmpty) (Run.plan options sheet.session.1 sheet.session.2)
  | .error _ => false

/-- The sheet is read and its plan has an expansion, and it becomes what the recursion gives. -/
theorem apply_eq_expanded_overriddenSize :
    ∃ sheet es t ex u, Sheet.parse overriddenSize none = .ok sheet ∧
      sheet.session.2.forest.WellFormed ∧
      sheet.session.2.forest.HoldsSheet sheet.session.1 sheet ∧
      Run.plan Options.builtin sheet.session.1 sheet.session.2 = .ok es t ∧ es ≠ [] ∧
      sheet.expanded Options.builtin sheet.session.2.report = .ok ex t.report ∧
      Run.apply Options.builtin sheet.session.1 sheet.session.2 = .ok () u ∧
      u.forest.nodesBelow? sheet.session.1 = some ex.nodes := by
  have hplans : plansExpansion Options.builtin overriddenSize = true := by decide +kernel
  unfold plansExpansion at hplans
  cases hparse : Sheet.parse overriddenSize none with
  | error e =>
    rw [hparse] at hplans
    exact absurd hplans (by simp)
  | ok sheet =>
    rw [hparse] at hplans
    obtain ⟨es, t, hplan, hsome⟩ := exists_ok_of_givesResult hplans
    obtain ⟨hs, hsheet⟩ := sheet.session_ok
    obtain ⟨ex, u, hexpanded, -, happly, -, -, hnodes⟩ := apply_eq_expanded hparse hs hsheet hplan
    exact ⟨sheet, es, t, ex, u, rfl, hs, hsheet, hplan, by simpa using hsome, hexpanded, happly,
      hnodes⟩

end FluidCss
