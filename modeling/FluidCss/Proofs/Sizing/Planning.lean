import FluidCss.Proofs.Forest.Walking
import FluidCss.Proofs.Sizing.Expanding
import FluidCss.Sizing.Run

set_option autoImplicit false

/-! # What planning does to a store

Planning makes nodes and leaves alone all that there are (`keeps_plan`). Where it succeeds, the
expansions are those of the declarations of each rule, rule by rule, and their nodes are new, all
different, and below no other node. -/

namespace FluidCss

open Forest

/-! ## The nodes of an interpolation -/

/-- The nodes that are put into the sheet. -/
def Placed.nodes (p : Placed) : List NodeId :=
  [p.fluidDecl, p.variableDecl, p.minMedia, p.maxMedia]

/-- The trees that are put into the sheet. -/
def Interpolation.trees (i : Interpolation) : List Node :=
  [i.fluidDeclaration, i.variableDeclaration, i.minMedia, i.maxMedia]

/-- A declaration is made on its own. -/
theorem stored_declaration {f : Forest} (hf : f.WellFormed) (prop value : String) :
    Stored f (f.add (.declaration prop value) none []).2 [f.size]
      [.declaration prop value none] :=
  (Stored.nil hf).above _ _ _ fun _ hcontent hsource hchildren _ => ⟨hcontent, hsource, hchildren⟩

theorem mediaBlock_ok {f : Forest} (hf : f.WellFormed) (rule : NodeId)
    (query prop size : String) :
    ∃ id g, Edit.mediaBlock rule query prop size f = .ok id g ∧ Made f g [id] ∧
      ∀ selector source, rule < f.size → f.content rule = .rule selector →
        f.source rule = source → g.HoldsAll [id] [.atBlock "media" query none
          [.rule selector source [.declaration prop size none,
            .declaration (Interpolation.variableName prop) size none]]] := by
  let f₁ := (f.add (.declaration prop size) none []).2
  let f₂ := (f₁.add (.declaration (Interpolation.variableName prop) size) none []).2
  let f₃ := (f₂.add (f₂.content rule) (f₂.source rule) [f.size, f₁.size]).2
  let f₄ := (f₃.add (.atRule "media" query false) none [f₂.size]).2
  have hheld : Stored f f₁ [f.size] _ := stored_declaration hf prop size
  have hboth : Stored f f₂ [f.size, f₁.size] _ := hheld.append (stored_declaration hheld.wellFormed
    (Interpolation.variableName prop) size)
  have hrun : Edit.mediaBlock rule query prop size f = .ok f₃.size f₄ := by
    have hcopy := Edit.copyWith_nodes f₂ rule fun c hc => (hboth.fresh c hc).2
    rw [Edit.mediaBlock, bind_of_ok (Edit.create_eq _ _ _ _), bind_of_ok (Edit.create_eq _ _ _ _),
      bind_of_ok hcopy]
    rfl
  refine ⟨f₃.size, f₄, hrun, (hboth.toMade.above _ _).above _ _, ?_⟩
  intro selector source hrule hcontent hsource
  -- the rule was there before, so the copy of it says what it said in the first store
  have hcopied : Stored f f₃ [f₂.size] [.rule selector source [.declaration prop size none,
      .declaration (Interpolation.variableName prop) size none]] := by
    refine hboth.above _ _ _ fun h hc hs hn hall => ⟨?_, ?_, hn ▸ hall⟩
    · rw [hc, hboth.grows.content_eq hrule, hcontent]
    · rw [hs, hboth.grows.source_eq hrule, hsource]
  exact (hcopied.above (.atRule "media" query false) none (.atBlock "media" query none _)
    fun h hc hs hn hall => ⟨hc, hs, hn ▸ hall⟩).holds

/-- **The nodes of an interpolation are made without fail.** -/
theorem place_ok {f : Forest} (hf : f.WellFormed) (i : Interpolation) (rule : NodeId) :
    ∃ placed g, i.place rule f = .ok placed g ∧ Made f g placed.nodes ∧
      (rule < f.size → f.content rule = .rule i.selector → f.source rule = i.source →
        g.HoldsAll placed.nodes i.trees) := by
  let f₁ := (f.add (.declaration i.prop i.expression) none []).2
  let f₂ := (f₁.add (.declaration (Interpolation.variableName i.prop) i.expression) none []).2
  have h₁ : Stored f f₁ [f.size] [i.fluidDeclaration] := stored_declaration hf _ _
  have h₂ : Stored f₁ f₂ [f₁.size] [i.variableDeclaration] := stored_declaration h₁.wellFormed _ _
  have hboth := h₁.append h₂
  obtain ⟨min, f₃, hmin, hmade₃, hholds₃⟩ :=
    mediaBlock_ok h₂.wellFormed rule i.minQuery i.prop i.bounds.minSize
  obtain ⟨max, f₄, hmax, hmade₄, hholds₄⟩ :=
    mediaBlock_ok hmade₃.wellFormed rule i.maxQuery i.prop i.bounds.maxSize
  have hrun : i.place rule f = .ok ⟨f.size, f₁.size, min, max⟩ f₄ := by
    rw [Interpolation.place, bind_of_ok (Edit.create_eq _ _ _ _),
      bind_of_ok (Edit.create_eq _ _ _ _), bind_of_ok hmin, bind_of_ok hmax]
    rfl
  refine ⟨_, f₄, hrun, (hboth.toMade.append hmade₃).append hmade₄, ?_⟩
  intro hrule hcontent hsource
  have hlt₂ : rule < f₂.size := Nat.lt_of_lt_of_le hrule hboth.grows.size_le
  have hlt₃ : rule < f₃.size := Nat.lt_of_lt_of_le hlt₂ hmade₃.grows.size_le
  have hstored₃ : Stored f₂ f₃ [min] [i.minMedia] := ⟨hmade₃, hholds₃ _ _ hlt₂
    ((hboth.grows.content_eq hrule).trans hcontent) ((hboth.grows.source_eq hrule).trans hsource)⟩
  have hgrows := hboth.grows.trans hmade₃.grows
  have hstored₄ : Stored f₃ f₄ [max] [i.maxMedia] := ⟨hmade₄, hholds₄ _ _ hlt₃
    ((hgrows.content_eq hrule).trans hcontent) ((hgrows.source_eq hrule).trans hsource)⟩
  exact ((hboth.append hstored₃).append hstored₄).holds

/-! ## Nothing is changed -/

/-- Whether a session only makes nodes on the way to another. -/
def Session.GrowsTo (s t : Session) : Prop :=
  s.forest.WellFormed → t.forest.WellFormed ∧ s.forest.GrowsTo t.forest

instance : Std.Refl Session.GrowsTo := ⟨fun s hs => ⟨hs, .refl s.forest⟩⟩

instance : IsTrans Session Session.GrowsTo where
  trans _ _ _ hst htu hs :=
    let ⟨ht, hgrows⟩ := hst hs
    let ⟨hu, hgrows'⟩ := htu ht
    ⟨hu, hgrows.trans hgrows'⟩

namespace Run

theorem keeps_ofReporting {α : Type} (x : Reporting α) :
    Keeps Session.GrowsTo (ofReporting x) := by
  intro s hs
  unfold ofReporting
  split <;> exact ⟨hs, .refl s.forest⟩

theorem keeps_place (i : Interpolation) (rule : NodeId) :
    Keeps Session.GrowsTo (ofEdit (i.place rule)) := by
  intro s hs
  obtain ⟨placed, g, hplace, hmade, -⟩ := place_ok hs i rule
  rw [ofEdit, hplace]
  exact ⟨hmade.wellFormed, hmade.grows⟩

theorem keeps_planDeclaration (options : Options) (size : String) (rule : NodeId) (p : Property)
    (d : Declared NodeId) (overridden : List (Declared NodeId)) :
    Keeps Session.GrowsTo (planDeclaration options size rule p d overridden) := by
  refine Keeps.get.bind fun s => ?_
  refine (keeps_ofReporting _).bind fun _ => (keeps_ofReporting _).bind fun i => ?_
  exact (keeps_place i rule).bind fun placed => Keeps.pure _

theorem keeps_planRule (options : Options) (size : String) (rule : NodeId) :
    Keeps Session.GrowsTo (planRule options size rule) :=
  Keeps.get.bind fun _ => Keeps.mapM (fun _ => keeps_planDeclaration options size rule _ _ _) _

theorem keeps_planRules (options : Options) (size : String) (rules : List NodeId) :
    Keeps Session.GrowsTo (planRules options size rules) := by
  induction rules generalizing size with
  | nil => exact Keeps.pure []
  | cons rule rest ih =>
    refine Keeps.get.bind fun s => ?_
    have hrest : ∀ after, Keeps Session.GrowsTo (do
        let here ← planRule options after rule
        let further ← planRules options after rest
        pure (here ++ further) : Run (List Expansion)) := fun after =>
      (keeps_planRule options after rule).bind fun _ => (ih after).bind fun _ => Keeps.pure _
    dsimp only
    split
    · exact (keeps_ofReporting _).bind fun _ => hrest _
    · exact hrest _

/-- **Planning only makes nodes**, whether it succeeds or not. -/
theorem keeps_plan (options : Options) (root : NodeId) :
    Keeps Session.GrowsTo (plan options root) :=
  Keeps.get.bind fun _ => keeps_planRules options _ _

end Run

/-! ## What a rule holds -/

namespace Forest

variable {f g : Forest} {root rule : NodeId}

/-- A node as a declaration that is known by it. -/
def asDeclared (f : Forest) (n : NodeId) : Declared NodeId :=
  ⟨n, (f.content n).prop, (f.content n).value⟩

/-- Whether a node is a rule that holds declarations only, which hold nothing. -/
structure IsPlainRule (f : Forest) (rule : NodeId) : Prop where
  lt_size : rule < f.size
  isRule : (f.content rule).isRule = true
  isDeclaration : ∀ d ∈ f.children rule, (f.content d).isDeclaration = true
  children_eq : ∀ d ∈ f.children rule, f.children d = []

/-- Whether the rules below a node hold declarations only, which hold nothing. -/
def RulesHoldDeclarations (f : Forest) (root : NodeId) : Prop :=
  ∀ rule ∈ f.rulesBelow root, ∀ d ∈ f.children rule,
    (f.content d).isDeclaration = true ∧ f.children d = []

theorem RulesHoldDeclarations.isPlainRule (hf : f.WellFormed) (h : f.RulesHoldDeclarations root)
    (hrule : rule ∈ f.rulesBelow root) : f.IsPlainRule rule := by
  obtain ⟨hwalk, hcontent⟩ := List.mem_filter.1 hrule
  obtain ⟨p, hp, -⟩ := hf.exists_parent_of_mem_walk root rule hwalk
  exact ⟨lt_size_of_parent hp, hcontent, fun d hd => (h rule hrule d hd).1,
    fun d hd => (h rule hrule d hd).2⟩

namespace IsPlainRule

/-- A rule is the same in a store that has grown. -/
theorem grow (h : f.IsPlainRule rule) (hf : f.WellFormed) (hfg : f.GrowsTo g) :
    g.IsPlainRule rule where
  lt_size := Nat.lt_of_lt_of_le h.lt_size hfg.size_le
  isRule := by rw [hfg.content_eq h.lt_size, h.isRule]
  isDeclaration d hd := by
    rw [hfg.children_eq h.lt_size] at hd
    rw [hfg.content_eq (hf.child_lt_size hd), h.isDeclaration d hd]
  children_eq d hd := by
    rw [hfg.children_eq h.lt_size] at hd
    rw [hfg.children_eq (hf.child_lt_size hd), h.children_eq d hd]

/-- What is below a rule are its children. -/
theorem walk_eq (h : f.IsPlainRule rule) (hf : f.WellFormed) : f.walk rule = f.children rule := by
  rw [hf.walk_eq]
  conv_rhs => rw [← List.flatMap_singleton' (f.children rule)]
  refine List.flatMap_congr ?_
  intro d hd
  rw [hf.walk_of_no_children (h.children_eq d hd)]

/-- The only rule that a rule is or has below it is the rule itself. -/
theorem filter_walk (h : f.IsPlainRule rule) (hf : f.WellFormed) :
    (rule :: f.walk rule).filter (fun k => (f.content k).isRule) = [rule] := by
  rw [List.filter_cons_of_pos (by simp [h.isRule]), h.walk_eq hf, List.filter_eq_nil_iff.2]
  intro d hd
  have hdecl := h.isDeclaration d hd
  cases hc : f.content d <;> simp_all [Content.isDeclaration, Content.isRule]

/-- The declarations of a rule are its children. -/
theorem declared_eq (h : f.IsPlainRule rule) (hf : f.WellFormed) :
    f.declared rule = (f.children rule).map f.asDeclared := by
  have hall : ∀ d ∈ f.children rule, f.declares (fun _ => true) d = true := by
    intro d hd
    have hdecl := h.isDeclaration d hd
    unfold declares
    cases hc : f.content d <;> simp_all [Content.isDeclaration]
  rw [declared, declarationsBelow, h.walk_eq hf, List.filter_eq_self.2 hall]
  rfl

theorem map_key_declared (h : f.IsPlainRule rule) (hf : f.WellFormed) :
    (f.declared rule).map (·.key) = f.children rule := by
  rw [h.declared_eq hf, List.map_map]
  exact List.map_id _

theorem declared_of_growsTo (h : f.IsPlainRule rule) (hf : f.WellFormed) (hg : g.WellFormed)
    (hfg : f.GrowsTo g) : g.declared rule = f.declared rule := by
  rw [h.declared_eq hf, (h.grow hf hfg).declared_eq hg, hfg.children_eq h.lt_size]
  exact List.map_congr_left fun d hd => by
    rw [asDeclared, asDeclared, hfg.content_eq (hf.child_lt_size hd)]

theorem site_of_growsTo (h : f.IsPlainRule rule) (hf : f.WellFormed) (hg : g.WellFormed)
    (hfg : f.GrowsTo g) : g.site rule = f.site rule := by
  have horigin : g.origin rule = f.origin rule := by
    rw [origin, origin, hf.root?_of_growsTo hg hfg rule h.lt_size]
    cases hroot : f.root? rule with
    | none => rfl
    | some r => rw [Option.map_some, Option.map_some, hfg.content_eq (hf.root?_lt_size h.lt_size hroot)]
  rw [site, site, horigin, hfg.content_eq h.lt_size, hfg.source_eq h.lt_size]

end IsPlainRule

end Forest

/-! ## Plans that succeed -/

theorem Content.eq_rule_of_isRule {c : Content} (h : c.isRule = true) : c = .rule c.selector := by
  cases c <;> simp_all [Content.isRule, Content.selector, Content.selector?]

/-- An interpolation is made for the property, the rule and the bounds that it is asked for, with
widths that have been brought into another unit if need be. -/
theorem Interpolation.build_ok {site : Site} {prop size : String} {b : Bounds}
    {i : Interpolation} {r r' : Report} (h : build site prop b size r = .ok i r') :
    ∃ scaled r₁, reconcile site b (LengthUnit.of? b.minSize) (LengthUnit.of? b.minWidth) size r₁ =
        .ok scaled r' ∧ i = ⟨prop, b, scaled, site.selector, site.source⟩ := by
  unfold build at h
  dsimp only at h
  split at h
  · obtain ⟨_, _, hthrow, -⟩ := bind_eq_ok_iff.1 h
    cases hthrow
  · -- a warning may have been given before
    obtain ⟨r₁, -, h⟩ := ite_bind_eq_ok_iff.1 h
    obtain ⟨scaled, r₂, hscaled, h⟩ := bind_eq_ok_iff.1 h
    obtain ⟨rfl, rfl⟩ := pure_eq_ok_iff.1 h
    exact ⟨scaled, r₁, hscaled, rfl⟩

/-- The interpolation of a property for a rule of a store. -/
def Forest.interpolate (f : Forest) (options : Options) (size : String) (rule : NodeId)
    (p : Property) : Reporting Interpolation := do
  let bounds := Declared.boundsOf p (options.defaults p) (f.declared rule)
  Reporting.log (.resolved p.name (f.site rule).selector bounds)
  Interpolation.build (f.site rule) p.name bounds size

theorem Forest.interpolate_ok {f : Forest} {options : Options} {size : String} {rule : NodeId}
    {p : Property} {i : Interpolation} {r r' : Report}
    (h : f.interpolate options size rule p r = .ok i r') :
    i.prop = p.name ∧ i.selector = (f.content rule).selector ∧ i.source = f.source rule := by
  obtain ⟨_, r₁, -, hbuild⟩ := bind_eq_ok_iff.1 h
  obtain ⟨scaled, r₂, -, rfl⟩ := Interpolation.build_ok hbuild
  exact ⟨rfl, rfl, rfl⟩

/-- The interpolations for a rule, where the root font size is known. -/
def Forest.interpolationsOf (f : Forest) (options : Options) (size : String) (rule : NodeId)
    (entries : List (Property × Declared NodeId × List (Declared NodeId))) :
    Reporting (List Interpolation) :=
  entries.mapM fun entry => f.interpolate options size rule entry.1

theorem Forest.interpolationsOf_cons (f : Forest) (options : Options) (size : String)
    (rule : NodeId) (entry : Property × Declared NodeId × List (Declared NodeId))
    (entries : List (Property × Declared NodeId × List (Declared NodeId))) :
    f.interpolationsOf options size rule (entry :: entries) = (do
      let i ← f.interpolate options size rule entry.1
      let rest ← f.interpolationsOf options size rule entries
      pure (i :: rest)) :=
  List.mapM_cons

/-- The root font size behind rules that follow each other, given the one before them, and the
interpolations for them. -/
def Forest.interpolations (f : Forest) (options : Options) :
    String → List NodeId → Reporting (String × List Interpolation)
  | current, [] => pure (current, [])
  | current, rule :: rest => do
    let selector := (f.content rule).selector
    let size := rootFontSizeAfter selector (f.declared rule) current
    if size ≠ current then Reporting.log (.rootSizeSet size selector)
    let here ← f.interpolationsOf options size rule (Declared.expanding (f.declared rule))
    let (last, further) ← f.interpolations options size rest
    pure (last, here ++ further)

theorem Forest.IsPlainRule.interpolate_of_growsTo {f g : Forest} {rule : NodeId}
    (h : f.IsPlainRule rule) (hf : f.WellFormed) (hg : g.WellFormed) (hfg : f.GrowsTo g)
    (options : Options) (size : String) (p : Property) :
    g.interpolate options size rule p = f.interpolate options size rule p := by
  rw [Forest.interpolate, h.declared_of_growsTo hf hg hfg, h.site_of_growsTo hf hg hfg]
  rfl

/-- What identifies an expansion: its rule, its declaration and what it takes out. -/
def Expansion.key (e : Expansion) : NodeId × NodeId × List NodeId := (e.rule, e.decl, e.spent)

/-- What identifies the expansion of a declaration of a rule that overrides others. -/
def Forest.keyOf (f : Forest) (rule : NodeId)
    (entry : Property × Declared NodeId × List (Declared NodeId)) :
    NodeId × NodeId × List NodeId :=
  (rule, entry.2.1.key, (Declared.spentOn entry.1 (f.declared rule) entry.2.2).map (·.key))

/-- What identifies the expansions of a rule. -/
def Forest.keys (f : Forest) (rule : NodeId) : List (NodeId × NodeId × List NodeId) :=
  (Declared.expanding (f.declared rule)).map (f.keyOf rule)

/-- All nodes that are put into the sheet by expansions. -/
def placedNodes (es : List Expansion) : List NodeId := es.flatMap fun e => e.placed.nodes

theorem placedNodes_cons (e : Expansion) (es : List Expansion) :
    placedNodes (e :: es) = e.placed.nodes ++ placedNodes es :=
  List.flatMap_cons

/-- All trees that are put into the sheet by expansions. -/
def placedTrees (es : List Expansion) : List Node := es.flatMap fun e => e.output.trees

/-- What is known of expansions after a plan from `f` to `g`: their nodes have been made, and they
have the given keys. -/
structure Planned (f g : Forest) (es : List Expansion)
    (keys : List (NodeId × NodeId × List NodeId)) : Prop where
  stored : Stored f g (placedNodes es) (placedTrees es)
  keys_eq : es.map Expansion.key = keys

namespace Planned

variable {f g h : Forest} {es es' : List Expansion} {ks ks' : List (NodeId × NodeId × List NodeId)}

theorem nil (hf : f.WellFormed) : Planned f f [] [] := ⟨.nil hf, rfl⟩

theorem append (hfg : Planned f g es ks) (hgh : Planned g h es' ks') :
    Planned f h (es ++ es') (ks ++ ks') where
  stored := by
    rw [placedNodes, placedTrees, List.flatMap_append, List.flatMap_append]
    exact hfg.stored.append hgh.stored
  keys_eq := by rw [List.map_append, hfg.keys_eq, hgh.keys_eq]

end Planned

namespace Run

variable {options : Options} {size : String} {rule : NodeId} {s t : Session}

theorem ofReporting_eq_ok_iff {α : Type} {x : Reporting α} {a : α} :
    ofReporting x s = .ok a t ↔ ∃ r, x s.report = .ok a r ∧ t = { s with report := r } := by
  unfold ofReporting
  constructor
  · intro h
    split at h
    · next b r hb =>
      obtain ⟨rfl, rfl⟩ : b = a ∧ { s with report := r } = t := by simpa using h
      exact ⟨r, hb, rfl⟩
    · cases h
  · rintro ⟨r, hx, rfl⟩
    rw [hx]

theorem ofReporting_log (e : Event) (s : Session) :
    ofReporting (Reporting.log e) s =
      .ok () { s with report := { s.report with events := s.report.events ++ [e] } } := rfl

theorem ofEdit_eq_ok_iff {α : Type} {x : Edit α} {a : α} :
    ofEdit x s = .ok a t ↔ ∃ f, x s.forest = .ok a f ∧ t = { s with forest := f } := by
  unfold ofEdit
  constructor
  · intro h
    split at h
    · next b f hb =>
      obtain ⟨rfl, rfl⟩ : b = a ∧ { s with forest := f } = t := by simpa using h
      exact ⟨f, hb, rfl⟩
    · cases h
  · rintro ⟨f, hx, rfl⟩
    rw [hx]

/-- Reporting under a condition leaves the store alone. -/
theorem ite_ofReporting_eq_ok {α : Type} {c : Prop} [Decidable c] {x : Reporting α}
    (h : if c then ∃ a, ofReporting x s = .ok a t else t = s) :
    t.forest = s.forest ∧ if c then ∃ a, x s.report = .ok a t.report else t.report = s.report := by
  by_cases hc : c
  · rw [if_pos hc] at h ⊢
    obtain ⟨a, ha⟩ := h
    obtain ⟨r, hr, rfl⟩ := ofReporting_eq_ok_iff.1 ha
    exact ⟨rfl, a, hr⟩
  · rw [if_neg hc] at h ⊢
    obtain rfl := h
    exact ⟨rfl, rfl⟩

section Ok

variable {f : Forest}

/-- The expansion of one declaration is the interpolation of its property for its rule. -/
theorem planDeclaration_ok {p : Property} {d : Declared NodeId}
    {overridden : List (Declared NodeId)} {e : Expansion} (hf : f.WellFormed)
    (hs : s.forest.WellFormed) (hfs : f.GrowsTo s.forest) (hrule : f.IsPlainRule rule)
    (h : planDeclaration options size rule p d overridden s = .ok e t) :
    f.interpolate options size rule p s.report = .ok e.output t.report ∧
      Planned s.forest t.forest [e] [f.keyOf rule (p, d, overridden)] := by
  rw [planDeclaration, get_bind] at h
  obtain ⟨u, s₁, hlog, h⟩ := bind_eq_ok_iff.1 h
  obtain ⟨i, s₂, hbuild, h⟩ := bind_eq_ok_iff.1 h
  obtain ⟨placed, s₃, hplace, h⟩ := bind_eq_ok_iff.1 h
  obtain ⟨rfl, rfl⟩ := pure_eq_ok_iff.1 h
  obtain ⟨r₁, hlogged, rfl⟩ := ofReporting_eq_ok_iff.1 hlog
  obtain ⟨r₂, hbuilt, rfl⟩ := ofReporting_eq_ok_iff.1 hbuild
  obtain ⟨g, hplaced, rfl⟩ := ofEdit_eq_ok_iff.1 hplace
  have hinterpolate : s.forest.interpolate options size rule p s.report = .ok i r₂ :=
    bind_eq_ok_iff.2 ⟨u, r₁, hlogged, hbuilt⟩
  have hrule' : s.forest.IsPlainRule rule := hrule.grow hf hfs
  obtain ⟨-, hselector, hsource⟩ := Forest.interpolate_ok hinterpolate
  have hcontent : s.forest.content rule = .rule i.selector := by
    rw [hselector]
    exact Content.eq_rule_of_isRule hrule'.isRule
  -- the nodes are those that are always made, since the run has one result only
  obtain ⟨placed', g', hplace', hmade, hholds⟩ := place_ok hs i rule
  obtain ⟨rfl, rfl⟩ := EStateM.Result.ok.inj (hplace'.symm.trans hplaced)
  refine ⟨?_, ⟨hmade, hholds hrule'.lt_size hcontent hsource.symm⟩, ?_⟩
  · rw [← hinterpolate, hrule.interpolate_of_growsTo hf hs hfs]
  · have hdeclared := hrule.declared_of_growsTo hf hs hfs
    simp [Expansion.key, keyOf, Declared.spentOn, Declared.resolve, hdeclared]

theorem mapM_planDeclaration_ok
    (entries : List (Property × Declared NodeId × List (Declared NodeId))) {es : List Expansion}
    (hf : f.WellFormed) (hs : s.forest.WellFormed) (hfs : f.GrowsTo s.forest)
    (hrule : f.IsPlainRule rule)
    (h : (entries.mapM fun (p, d, overridden) =>
      planDeclaration options size rule p d overridden : Run (List Expansion)) s = .ok es t) :
    f.interpolationsOf options size rule entries s.report = .ok (es.map (·.output)) t.report ∧
      Planned s.forest t.forest es (entries.map (f.keyOf rule)) := by
  induction entries generalizing s es with
  | nil =>
    obtain ⟨rfl, rfl⟩ := pure_eq_ok_iff.1 h
    exact ⟨rfl, .nil hs⟩
  | cons entry entries ih =>
    obtain ⟨p, d, overridden⟩ := entry
    rw [List.mapM_cons] at h
    obtain ⟨e, s₁, hfirst, h⟩ := bind_eq_ok_iff.1 h
    obtain ⟨es', s₂, hrest, h⟩ := bind_eq_ok_iff.1 h
    obtain ⟨rfl, rfl⟩ := pure_eq_ok_iff.1 h
    obtain ⟨hbuilt, hplanned⟩ := planDeclaration_ok hf hs hfs hrule hfirst
    obtain ⟨hbuilt', hplanned'⟩ := ih hplanned.stored.wellFormed
      (hfs.trans hplanned.stored.grows) hrest
    refine ⟨?_, hplanned.append hplanned'⟩
    rw [interpolationsOf_cons, bind_of_ok hbuilt, bind_of_ok hbuilt']
    rfl

/-- The expansions of one rule are those of its declarations that are expanded. -/
theorem planRule_ok {es : List Expansion} (hf : f.WellFormed) (hs : s.forest.WellFormed)
    (hfs : f.GrowsTo s.forest) (hrule : f.IsPlainRule rule)
    (h : planRule options size rule s = .ok es t) :
    f.interpolationsOf options size rule (Declared.expanding (f.declared rule)) s.report =
        .ok (es.map (·.output)) t.report ∧
      Planned s.forest t.forest es (f.keys rule) := by
  rw [planRule, get_bind] at h
  dsimp only at h
  rw [hrule.declared_of_growsTo hf hs hfs] at h
  exact mapM_planDeclaration_ok _ hf hs hfs hrule h

/-- **The expansions of rules are those of their declarations that are expanded**, rule by rule, and
are worked out on the store as it is. -/
theorem planRules_ok {rules : List NodeId} {es : List Expansion} (hf : f.WellFormed)
    (hs : s.forest.WellFormed) (hfs : f.GrowsTo s.forest)
    (hrules : ∀ rule ∈ rules, f.IsPlainRule rule)
    (h : planRules options size rules s = .ok es t) :
    (∃ last, f.interpolations options size rules s.report =
      .ok (last, es.map (·.output)) t.report) ∧
      Planned s.forest t.forest es (rules.flatMap f.keys) := by
  induction rules generalizing size s es t with
  | nil =>
    obtain ⟨rfl, rfl⟩ := pure_eq_ok_iff.1 h
    exact ⟨⟨size, rfl⟩, .nil hs⟩
  | cons rule rules ih =>
    have hrule := hrules rule (by simp)
    rw [planRules, get_bind] at h
    dsimp only at h
    rw [hrule.declared_of_growsTo hf hs hfs, hfs.content_eq hrule.lt_size] at h
    rw [interpolations]
    dsimp only
    -- it does not matter here how the root font size comes about
    generalize rootFontSizeAfter (f.content rule).selector (f.declared rule) size = after at h ⊢
    obtain ⟨s₁, hlog, h⟩ := ite_bind_eq_ok_iff.1 h
    obtain ⟨here, s₂, hhere, h⟩ := bind_eq_ok_iff.1 h
    obtain ⟨further, s₃, hfurther, h⟩ := bind_eq_ok_iff.1 h
    obtain ⟨rfl, rfl⟩ := pure_eq_ok_iff.1 h
    -- what is reported on the way does not touch the store
    obtain ⟨hforest, hreport⟩ := ite_ofReporting_eq_ok hlog
    rw [← hforest] at hs hfs
    obtain ⟨hbuilt, hplanned⟩ := planRule_ok hf hs hfs hrule hhere
    obtain ⟨⟨last, hbuilt'⟩, hplanned'⟩ := ih hplanned.stored.wellFormed
      (hfs.trans hplanned.stored.grows) (fun r hr => hrules r (by simp [hr])) hfurther
    refine ⟨⟨last, ?_⟩, ?_⟩
    · refine ite_bind_eq_ok_iff.2 ⟨s₁.report, hreport, ?_⟩
      rw [bind_of_ok hbuilt, bind_of_ok hbuilt', List.map_append]
      rfl
    · rw [← hforest, List.flatMap_cons]
      exact hplanned.append hplanned'

/-- **What a plan is made of.** -/
theorem plan_ok {root : NodeId} {es : List Expansion} (hs : s.forest.WellFormed)
    (hrules : s.forest.RulesHoldDeclarations root) (h : plan options root s = .ok es t) :
    (∃ last, s.forest.interpolations options options.rootFontSize (s.forest.rulesBelow root)
      s.report = .ok (last, es.map (·.output)) t.report) ∧
      Planned s.forest t.forest es ((s.forest.rulesBelow root).flatMap s.forest.keys) := by
  rw [plan, get_bind] at h
  exact planRules_ok hs hs (.refl _) (fun rule hrule => hrules.isPlainRule hs hrule) h

end Ok

end Run

end FluidCss
