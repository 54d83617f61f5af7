import FluidCss.Proofs.Sizing.RuleRefinement
import Mathlib.Data.List.Flatten

set_option autoImplicit false

/-! # A plan partitions the declarations

A plan has one expansion for each rule and each property of which a fluid size is asked for in it.
An expansion takes declarations out of its rule: the last one that asks for the size, in whose place
others are put, those that only set the bounds of the property, and those that it overrides. No
declaration is taken out twice, whether by one expansion or by two, and none that asks for a size is
left over (`Forest.IsPartitioned`, `Run.isPartitioned_of_plan_ok`).

That two expansions of one rule do not meet is a fact about the names of declarations: each name
serves one property only (`Declared.eq_of_serves`). -/

namespace FluidCss

/-! ## Names and the properties they serve -/

namespace Property

/-- The names of the declarations that only set bounds of a property, in the order in which they are
read. -/
def settings (p : Property) : List String := p.range :: Bound.all.map p.longhand

theorem nodup_settings (p : Property) : p.settings.Nodup := by
  cases p <;> decide

theorem eq_of_mem_settings {p q : Property} {name : String} (hp : name ∈ p.settings)
    (hq : name ∈ q.settings) : p = q := by
  have h : ∀ name ∈ p.settings, name ∈ q.settings → p = q := by
    cases p <;> cases q <;> decide
  exact h name hp hq

theorem name_injective : Function.Injective Property.name := by
  intro p q h
  exact Option.some.inj ((ofName?_name p).symm.trans ((congrArg ofName? h).trans (ofName?_name q)))

end Property

namespace Declared

variable {κ : Type} {p q : Property} {d : Declared κ} {ds overridden : List (Declared κ)}

theorem asks_iff_prop : d.asks p = true ↔ d.prop = p.name ∧ d.isFluid = true := by
  rw [asks_iff, fluidProperty?]
  constructor
  · intro h
    split at h
    · next hfluid => exact ⟨(Property.name_of_ofName? _ _ h).symm, hfluid⟩
    · cases h
  · rintro ⟨hprop, hfluid⟩
    rw [if_pos hfluid, hprop, Property.ofName?_name]

theorem setsBounds_iff : d.setsBounds p = true ↔ d.prop ∈ p.settings := by
  simp only [setsBounds, Property.settings, Bool.or_eq_true, beq_iff_eq, List.any_eq_true,
    List.mem_cons, List.mem_map]
  grind

/-- Whether a declaration asks for a fluid size of a property or only sets bounds of it. -/
def Serves (p : Property) (d : Declared κ) : Prop := d.asks p = true ∨ d.setsBounds p = true

/-- No declaration serves two properties. -/
theorem eq_of_serves (hp : d.Serves p) (hq : d.Serves q) : p = q := by
  rcases hp with hp | hp <;> rcases hq with hq | hq
  · exact Option.some.inj ((asks_iff.1 hp).symm.trans (asks_iff.1 hq))
  · exact absurd hp (not_asks_of_setsBounds hq)
  · exact absurd hq (not_asks_of_setsBounds hp)
  · exact Property.eq_of_mem_settings (setsBounds_iff.1 hp) (setsBounds_iff.1 hq)

theorem mem_named {name : String} : d ∈ named ds name ↔ d ∈ ds ∧ d.prop = name := by
  rw [named, List.mem_filter, beq_iff_eq]

theorem nodup_flatMap_named {names : List String} (hnames : names.Nodup) (hds : ds.Nodup) :
    (names.flatMap (named ds)).Nodup := by
  rw [List.nodup_flatMap]
  refine ⟨fun name _ => hds.filter _, hnames.imp ?_⟩
  intro name name' hne d hd hd'
  exact hne ((mem_named.1 hd).2.symm.trans (mem_named.1 hd').2)

theorem spentOn_eq (p : Property) (ds overridden : List (Declared κ)) :
    spentOn p ds overridden = p.settings.flatMap (named ds) ++ overridden := by
  rw [spentOn, longhands, Property.settings, List.flatMap_cons, List.flatMap_map]

/-- What an entry of a rule takes out serves its property. -/
theorem serves_of_mem_taken (h : (p, d, overridden) ∈ expanding ds) {c : Declared κ}
    (hc : c ∈ d :: spentOn p ds overridden) : c ∈ ds ∧ c.Serves p := by
  rcases List.mem_cons.1 hc with rfl | hspent
  · exact ⟨mem_of_mem_expanding h, .inl (asks_of_mem_expanding h)⟩
  · rcases mem_spentOn_iff.1 hspent with ⟨hmem, hsets⟩ | hover
    · exact ⟨hmem, .inr hsets⟩
    · exact ⟨(asks_of_mem_overridden h hover).1, .inl (asks_of_mem_overridden h hover).2⟩

/-- No entry of a rule takes a declaration out twice. -/
theorem nodup_taken (hds : ds.Nodup) (h : (p, d, overridden) ∈ expanding ds) :
    (d :: spentOn p ds overridden).Nodup := by
  refine List.nodup_cons.2 ⟨not_mem_spentOn hds h h, ?_⟩
  rw [spentOn_eq, List.nodup_append]
  refine ⟨nodup_flatMap_named p.nodup_settings hds, ?_, ?_⟩
  · obtain ⟨xs, ys, rfl, -, -, rfl⟩ := mem_expanding_iff.1 h
    exact (List.nodup_append.1 hds).1.filter _
  · -- what sets bounds asks for nothing
    rintro c hc c' hc' rfl
    obtain ⟨name, hname, hnamed⟩ := List.mem_flatMap.1 hc
    have hsets : c.setsBounds p = true := setsBounds_iff.2 ((mem_named.1 hnamed).2 ▸ hname)
    exact not_asks_of_setsBounds hsets (asks_of_mem_overridden h hc').2

/-- Each property has one entry in a rule. -/
theorem nodup_map_fst_expandingFrom (before ds : List (Declared κ)) :
    ((expandingFrom before ds).map (·.1)).Nodup := by
  induction ds generalizing before with
  | nil => exact List.nodup_nil
  | cons d ds ih =>
    cases hd : d.fluidProperty? with
    | none =>
      rw [expandingFrom_cons_of_none hd]
      exact ih _
    | some p =>
      rw [expandingFrom_cons_of_some hd]
      split
      · exact ih _
      · next hlast =>
        refine List.nodup_cons.2 ⟨fun hmem => ?_, ih _⟩
        obtain ⟨⟨q, c, overridden⟩, hentry, rfl⟩ := List.mem_map.1 hmem
        obtain ⟨xs, ys, rfl, hc, -⟩ := (mem_expandingFrom_iff _ _).1 hentry
        exact hlast (by simp [hc])

/-- **No declaration of a rule is taken out twice.** -/
theorem nodup_flatMap_taken (hds : ds.Nodup) :
    ((expanding ds).flatMap fun entry => entry.2.1 :: spentOn entry.1 ds entry.2.2).Nodup := by
  rw [List.nodup_flatMap]
  refine ⟨fun entry hentry => nodup_taken hds hentry, ?_⟩
  have hproperties : (expanding ds).Pairwise fun entry entry' => entry.1 ≠ entry'.1 :=
    List.pairwise_map.1 (nodup_map_fst_expandingFrom [] ds)
  refine hproperties.imp_of_mem ?_
  intro entry entry' hentry hentry' hne c hc hc'
  exact hne (eq_of_serves (serves_of_mem_taken hentry hc).2 (serves_of_mem_taken hentry' hc').2)

end Declared

/-! ## What a partition of the declarations is -/

/-- The declarations that an expansion takes out of its rule. -/
def Expansion.taken (e : Expansion) : List NodeId := e.decl :: e.spent

namespace Forest

/-- The children of a node with a property name, in order. -/
def childrenNamed (f : Forest) (n : NodeId) (name : String) : List NodeId :=
  (f.children n).filter fun d => (f.content d).prop == name

/-- Whether a node is a declaration that asks for a fluid size of a property. -/
def asksFor (f : Forest) (p : Property) (d : NodeId) : Bool :=
  (f.content d).prop == p.name && Text.contains (f.content d).value "fluid"

/-- Expansions take each declaration of the rules below a node that asks for a fluid size out of
its rule, and no declaration twice. -/
structure IsPartitioned (f : Forest) (root : NodeId) (es : List Expansion) : Prop where
  /-- No rule has two expansions of one property. -/
  nodup_sites : (es.map fun e => (e.rule, e.output.prop)).Nodup
  /-- A rule has an expansion of a property if the rule asks for it, and no other expansion. -/
  mem_sites_iff : ∀ rule name, (rule, name) ∈ es.map (fun e => (e.rule, e.output.prop)) ↔
    ∃ p : Property, name = p.name ∧ rule ∈ f.rulesBelow root ∧
      ∃ d ∈ f.children rule, f.asksFor p d = true
  /-- The last declaration that asks for the size is expanded; those that set its bounds, first both
  widths, then one bound each, and the earlier ones that ask for it are of no use behind it. -/
  isLast : ∀ e ∈ es, ∃ (p : Property) (earlier later : List NodeId), e.output.prop = p.name ∧
    f.children e.rule = earlier ++ e.decl :: later ∧ f.asksFor p e.decl = true ∧
    (∀ d ∈ later, f.asksFor p d = false) ∧
    e.spent = f.childrenNamed e.rule p.range ++
      (Bound.all.flatMap fun bound => f.childrenNamed e.rule (p.longhand bound)) ++
      earlier.filter (f.asksFor p)
  /-- Nothing is taken out twice. -/
  nodup_taken : (es.flatMap Expansion.taken).Nodup
  /-- Each expansion keeps to its own rule. -/
  mem_children : ∀ e ∈ es, ∀ d ∈ e.taken, d ∈ f.children e.rule
  /-- Nothing that asks for a size is left over. -/
  exists_taken : ∀ rule ∈ f.rulesBelow root, ∀ d ∈ f.children rule, ∀ p : Property,
    f.asksFor p d = true → ∃ e ∈ es, e.rule = rule ∧ d ∈ e.taken
  /-- The rules come in their order, and so do the declarations of a rule. -/
  ordered : (es.map fun e => (e.rule, e.decl)).Sublist
    ((f.rulesBelow root).flatMap fun rule => (f.children rule).map fun d => (rule, d))

variable {f : Forest} {rule : NodeId} {p : Property}

theorem asks_asDeclared (f : Forest) (p : Property) (d : NodeId) :
    (f.asDeclared d).asks p = f.asksFor p d := by
  rw [Bool.eq_iff_iff, Declared.asks_iff_prop, asksFor, Bool.and_eq_true, beq_iff_eq]
  rfl

namespace IsPlainRule

theorem map_key_named (h : f.IsPlainRule rule) (hf : f.WellFormed) (name : String) :
    (Declared.named (f.declared rule) name).map (·.key) = f.childrenNamed rule name := by
  rw [h.declared_eq hf, Declared.named, List.filter_map, List.map_map]
  exact List.map_id _

theorem map_key_spentOn (h : f.IsPlainRule rule) (hf : f.WellFormed) (p : Property)
    (overridden : List (Declared NodeId)) :
    (Declared.spentOn p (f.declared rule) overridden).map (·.key) =
      f.childrenNamed rule p.range ++
        (Bound.all.flatMap fun bound => f.childrenNamed rule (p.longhand bound)) ++
        overridden.map (·.key) := by
  rw [Declared.spentOn, List.map_append, List.map_append, h.map_key_named hf, Declared.longhands,
    List.map_flatMap]
  simp only [h.map_key_named hf]

/-- The declarations of a rule before and behind one of them are the children before and behind
it. -/
theorem exists_split (h : f.IsPlainRule rule) (hf : f.WellFormed) {d : Declared NodeId}
    {xs ys : List (Declared NodeId)} (hds : f.declared rule = xs ++ d :: ys) :
    ∃ earlier later, f.children rule = earlier ++ d.key :: later ∧
      xs = earlier.map f.asDeclared ∧ d = f.asDeclared d.key ∧ ys = later.map f.asDeclared := by
  rw [h.declared_eq hf] at hds
  obtain ⟨earlier, rest, hchildren, hxs, hrest⟩ := List.map_eq_append_iff.1 hds
  obtain ⟨n, later, rfl, rfl, hys⟩ := List.map_eq_cons_iff.1 hrest
  exact ⟨earlier, later, hchildren, hxs.symm, rfl, hys.symm⟩

/-- What the entries of a rule take out are the keys of what they take out as declarations. -/
theorem flatMap_keys (f : Forest) (rule : NodeId) :
    ((f.keys rule).flatMap fun key => key.2.1 :: key.2.2) =
      ((Declared.expanding (f.declared rule)).flatMap fun entry =>
        entry.2.1 :: Declared.spentOn entry.1 (f.declared rule) entry.2.2).map (·.key) := by
  rw [keys, List.flatMap_map, List.map_flatMap]
  rfl

theorem mem_declared_of_mem_flatMap {c : Declared NodeId}
    (hc : c ∈ (Declared.expanding (f.declared rule)).flatMap fun entry =>
      entry.2.1 :: Declared.spentOn entry.1 (f.declared rule) entry.2.2) : c ∈ f.declared rule := by
  obtain ⟨entry, hentry, hc⟩ := List.mem_flatMap.1 hc
  exact (Declared.serves_of_mem_taken hentry hc).1

theorem nodup_flatMap_keys (h : f.IsPlainRule rule) (hf : f.WellFormed) :
    ((f.keys rule).flatMap fun key => key.2.1 :: key.2.2).Nodup := by
  rw [flatMap_keys]
  refine (Declared.nodup_flatMap_taken (h.nodup_declared hf)).map_on ?_
  intro c hc c' hc' heq
  exact h.eq_of_key_eq hf (mem_declared_of_mem_flatMap hc) (mem_declared_of_mem_flatMap hc') heq

theorem mem_children_of_mem_keys (h : f.IsPlainRule rule) (hf : f.WellFormed) {n : NodeId}
    (hn : n ∈ (f.keys rule).flatMap fun key => key.2.1 :: key.2.2) : n ∈ f.children rule := by
  rw [flatMap_keys] at hn
  obtain ⟨c, hc, rfl⟩ := List.mem_map.1 hn
  exact h.key_mem_children hf (mem_declared_of_mem_flatMap hc)

/-- An entry of a rule is one of the declarations that ask for its property. -/
theorem prop_of_mem_expanding (h : f.IsPlainRule rule) (hf : f.WellFormed) {d : Declared NodeId}
    {overridden : List (Declared NodeId)}
    (hentry : (p, d, overridden) ∈ Declared.expanding (f.declared rule)) :
    (f.content d.key).prop = p.name := by
  obtain ⟨xs, ys, hds, hd, -⟩ := Declared.mem_expanding_iff.1 hentry
  obtain ⟨-, -, -, -, heq, -⟩ := h.exists_split hf hds
  rw [heq] at hd
  exact (Declared.asks_iff_prop.1 hd).1

end IsPlainRule

/-! ## The properties of the interpolations -/

theorem interpolationsOf_ok {options : Options} {size : String}
    {entries : List (Property × Declared NodeId × List (Declared NodeId))}
    {outputs : List Interpolation} {r r' : Report}
    (h : f.interpolationsOf options size rule entries r = .ok outputs r') :
    outputs.map (·.prop) = entries.map (·.1.name) := by
  induction entries generalizing outputs r r' with
  | nil =>
    obtain ⟨rfl, -⟩ := pure_eq_ok_iff.1 h
    rfl
  | cons entry entries ih =>
    rw [interpolationsOf_cons] at h
    obtain ⟨i, r₁, hfirst, h⟩ := bind_eq_ok_iff.1 h
    obtain ⟨rest, r₂, hrest, h⟩ := bind_eq_ok_iff.1 h
    obtain ⟨rfl, -⟩ := pure_eq_ok_iff.1 h
    rw [List.map_cons, List.map_cons, (interpolate_ok hfirst).1, ih hrest]

/-- The interpolations for rules are made for the properties that are expanded, in their order. -/
theorem interpolations_ok {options : Options} {size last : String} {rules : List NodeId}
    {outputs : List Interpolation} {r r' : Report}
    (h : f.interpolations options size rules r = .ok (last, outputs) r') :
    outputs.map (·.prop) =
      rules.flatMap fun rule => (Declared.expanding (f.declared rule)).map (·.1.name) := by
  induction rules generalizing size last outputs r r' with
  | nil =>
    obtain ⟨h, -⟩ := pure_eq_ok_iff.1 h
    obtain ⟨-, rfl⟩ := Prod.mk.inj h
    rfl
  | cons rule rules ih =>
    rw [interpolations] at h
    dsimp only at h
    obtain ⟨r₁, -, h⟩ := ite_bind_eq_ok_iff.1 h
    obtain ⟨here, r₂, hhere, h⟩ := bind_eq_ok_iff.1 h
    obtain ⟨⟨size', further⟩, r₃, hfurther, h⟩ := bind_eq_ok_iff.1 h
    obtain ⟨h, -⟩ := pure_eq_ok_iff.1 h
    obtain ⟨-, rfl⟩ := Prod.mk.inj h
    rw [List.map_append, interpolationsOf_ok hhere, ih hfurther, List.flatMap_cons]

end Forest

/-! ## Plans are partitions -/

namespace Planned

open Forest

variable {f g : Forest} {es : List Expansion} {rules : List NodeId} {e : Expansion}

/-- What depends on the rule, the declaration and what is taken out only can be read off the rules. -/
theorem map_key {α : Type} (h : Planned f g es (rules.flatMap f.keys))
    (φ : NodeId × NodeId × List NodeId → α) :
    es.map (fun e => φ e.key) = rules.flatMap fun rule =>
      (Declared.expanding (f.declared rule)).map fun entry => φ (f.keyOf rule entry) := by
  calc es.map (fun e => φ e.key) = (es.map Expansion.key).map φ := by rw [List.map_map]; rfl
    _ = _ := by
      rw [h.keys_eq, List.map_flatMap]
      simp only [Forest.keys, List.map_map, Function.comp_def]

theorem map_prop (h : Planned f g es (rules.flatMap f.keys)) (hf : f.WellFormed)
    (hrules : ∀ rule ∈ rules, f.IsPlainRule rule) :
    es.map (fun e => (f.content e.decl).prop) = rules.flatMap fun rule =>
      (Declared.expanding (f.declared rule)).map (·.1.name) := by
  have hkey := h.map_key fun key => (f.content key.2.1).prop
  refine hkey.trans (List.flatMap_congr fun rule hrule => List.map_congr_left ?_)
  intro entry hentry
  exact (hrules rule hrule).prop_of_mem_expanding hf hentry

/-- An expansion is made for the property of its declaration. -/
theorem output_prop (h : Planned f g es (rules.flatMap f.keys)) (hf : f.WellFormed)
    (hrules : ∀ rule ∈ rules, f.IsPlainRule rule)
    (houtputs : (es.map (·.output)).map (·.prop) = rules.flatMap fun rule =>
      (Declared.expanding (f.declared rule)).map (·.1.name)) (he : e ∈ es) :
    e.output.prop = (f.content e.decl).prop := by
  rw [← h.map_prop hf hrules, List.map_map] at houtputs
  exact List.map_inj_left.1 houtputs e he

/-- The expansions by rule and property. -/
theorem map_site (h : Planned f g es (rules.flatMap f.keys)) (hf : f.WellFormed)
    (hrules : ∀ rule ∈ rules, f.IsPlainRule rule)
    (hprop : ∀ e ∈ es, e.output.prop = (f.content e.decl).prop) :
    es.map (fun e => (e.rule, e.output.prop)) = rules.flatMap fun rule =>
      (Declared.expanding (f.declared rule)).map fun entry => (rule, entry.1.name) := by
  have hkey := h.map_key fun key => (key.1, (f.content key.2.1).prop)
  calc es.map (fun e => (e.rule, e.output.prop))
      = es.map fun e => (e.rule, (f.content e.decl).prop) :=
        List.map_congr_left fun e he => by rw [hprop e he]
    _ = _ := by
      refine hkey.trans (List.flatMap_congr fun rule hrule => List.map_congr_left ?_)
      intro entry hentry
      exact Prod.ext rfl ((hrules rule hrule).prop_of_mem_expanding hf hentry)

theorem nodup_sites (hnodup : rules.Nodup) :
    (rules.flatMap fun rule => (Declared.expanding (f.declared rule)).map fun entry =>
      (rule, entry.1.name)).Nodup := by
  rw [List.nodup_flatMap]
  refine ⟨fun rule _ => ?_, hnodup.imp ?_⟩
  · have hfst := Declared.nodup_map_fst_expandingFrom [] (f.declared rule)
    have hpair : Function.Injective fun p : Property => (rule, p.name) := fun p q h =>
      Property.name_injective (Prod.mk.inj h).2
    have hsites := hfst.map hpair
    rw [List.map_map] at hsites
    exact hsites
  · intro rule rule' hne site hsite hsite'
    obtain ⟨_, -, rfl⟩ := List.mem_map.1 hsite
    obtain ⟨_, -, heq⟩ := List.mem_map.1 hsite'
    exact hne (Prod.mk.inj heq).1.symm

theorem mem_sites_iff (hf : f.WellFormed) (hrules : ∀ rule ∈ rules, f.IsPlainRule rule)
    (rule : NodeId) (name : String) :
    ((rule, name) ∈ rules.flatMap fun rule => (Declared.expanding (f.declared rule)).map
        fun entry => (rule, entry.1.name)) ↔
      ∃ p : Property, name = p.name ∧ rule ∈ rules ∧
        ∃ d ∈ f.children rule, f.asksFor p d = true := by
  constructor
  · intro h
    obtain ⟨rule', hrule, hsite⟩ := List.mem_flatMap.1 h
    obtain ⟨⟨p, d, overridden⟩, hentry, heq⟩ := List.mem_map.1 hsite
    obtain ⟨rfl, rfl⟩ := Prod.mk.inj heq
    obtain ⟨xs, ys, hds, hd, -⟩ := Declared.mem_expanding_iff.1 hentry
    obtain ⟨earlier, later, hchildren, -, hkey, -⟩ := (hrules _ hrule).exists_split hf hds
    refine ⟨p, rfl, hrule, d.key, by simp [hchildren], ?_⟩
    rw [← asks_asDeclared, ← hkey, hd]
  · rintro ⟨p, rfl, hrule, d, hd, hasks⟩
    have hmem : f.asDeclared d ∈ f.declared rule := by
      rw [(hrules rule hrule).declared_eq hf]
      exact List.mem_map_of_mem hd
    obtain ⟨last, overridden, hentry, -⟩ :=
      Declared.exists_mem_expanding hmem ((f.asks_asDeclared p d).trans hasks)
    exact List.mem_flatMap.2 ⟨rule, hrule, List.mem_map.2 ⟨_, hentry, rfl⟩⟩

/-- The declaration of an expansion is the last one that asks for its property, and what it takes out
besides is known. -/
theorem exists_isLast (h : Planned f g es (rules.flatMap f.keys)) (hf : f.WellFormed)
    (hrules : ∀ rule ∈ rules, f.IsPlainRule rule) (he : e ∈ es) :
    ∃ (p : Property) (earlier later : List NodeId),
      f.children e.rule = earlier ++ e.decl :: later ∧ f.asksFor p e.decl = true ∧
      (∀ d ∈ later, f.asksFor p d = false) ∧
      e.spent = f.childrenNamed e.rule p.range ++
        (Bound.all.flatMap fun bound => f.childrenNamed e.rule (p.longhand bound)) ++
        earlier.filter (f.asksFor p) := by
  obtain ⟨hrule, p, d, overridden, hentry, hdecl, hspent⟩ := h.exists_entry he
  have hplain := hrules _ hrule
  obtain ⟨xs, ys, hds, hd, hys, rfl⟩ := Declared.mem_expanding_iff.1 hentry
  obtain ⟨earlier, later, hchildren, rfl, hkey, rfl⟩ := hplain.exists_split hf hds
  refine ⟨p, earlier, later, hdecl ▸ hchildren, ?_, ?_, ?_⟩
  · rw [hdecl, ← asks_asDeclared, ← hkey, hd]
  · intro n hn
    have hnot := hys _ (List.mem_map_of_mem hn)
    rwa [asks_asDeclared, Bool.not_eq_true] at hnot
  · rw [hspent, hplain.map_key_spentOn hf, List.filter_map, List.map_map]
    congr 1
    rw [show Declared.asks p ∘ f.asDeclared = f.asksFor p from funext (f.asks_asDeclared p)]
    exact List.map_id _

/-- No declaration is taken out twice. -/
theorem nodup_taken (h : Planned f g es (rules.flatMap f.keys)) (hf : f.WellFormed)
    (hrules : ∀ rule ∈ rules, f.IsPlainRule rule) (hnodup : rules.Nodup) :
    (es.flatMap Expansion.taken).Nodup := by
  have htaken : es.flatMap Expansion.taken =
      rules.flatMap fun rule => (f.keys rule).flatMap fun key => key.2.1 :: key.2.2 := by
    calc es.flatMap Expansion.taken
        = (es.map Expansion.key).flatMap fun key => key.2.1 :: key.2.2 := by
          rw [List.flatMap_map]; rfl
      _ = _ := by rw [h.keys_eq, List.flatMap_assoc]
  -- within one rule by the names of the declarations, across rules by their parents
  rw [htaken, List.nodup_flatMap]
  refine ⟨fun rule hrule => (hrules rule hrule).nodup_flatMap_keys hf, ?_⟩
  refine hnodup.imp_of_mem fun {r r'} hr hr' hne n hn hn' => hne ?_
  exact hf.eq_of_mem_children ((hrules r hr).mem_children_of_mem_keys hf hn)
    ((hrules r' hr').mem_children_of_mem_keys hf hn')

theorem exists_taken (h : Planned f g es (rules.flatMap f.keys)) (hf : f.WellFormed)
    (hrules : ∀ rule ∈ rules, f.IsPlainRule rule) {rule d : NodeId} (hrule : rule ∈ rules)
    (hd : d ∈ f.children rule) {p : Property} (hasks : f.asksFor p d = true) :
    ∃ e ∈ es, e.rule = rule ∧ d ∈ e.taken := by
  have hmem : f.asDeclared d ∈ f.declared rule := by
    rw [(hrules rule hrule).declared_eq hf]
    exact List.mem_map_of_mem hd
  obtain ⟨last, overridden, hentry, hlast⟩ :=
    Declared.exists_mem_expanding hmem ((f.asks_asDeclared p d).trans hasks)
  obtain ⟨e, he, hkey⟩ := h.exists_of_entry hrule hentry
  obtain ⟨hsame, htaken⟩ := Prod.mk.inj hkey
  obtain ⟨hdecl, hspent⟩ := Prod.mk.inj htaken
  refine ⟨e, he, hsame, ?_⟩
  rw [Expansion.taken, hdecl, hspent]
  rcases hlast with heq | hover
  · exact List.mem_cons.2 (.inl (congrArg Declared.key heq))
  · exact List.mem_cons_of_mem _ (List.mem_map.2 ⟨_, Declared.mem_spentOn_iff.2 (.inr hover), rfl⟩)

theorem ordered (h : Planned f g es (rules.flatMap f.keys)) (hf : f.WellFormed)
    (hrules : ∀ rule ∈ rules, f.IsPlainRule rule) :
    (es.map fun e => (e.rule, e.decl)).Sublist
      (rules.flatMap fun rule => (f.children rule).map fun d => (rule, d)) := by
  have hkey := h.map_key fun key => (key.1, key.2.1)
  refine hkey.symm ▸ List.Sublist.flatMap_right rules fun rule hrule => ?_
  have hsub := (Declared.sublist_expandingFrom [] (f.declared rule)).map fun d => (rule, d.key)
  rw [← (hrules rule hrule).map_key_declared hf, List.map_map]
  rw [List.map_map] at hsub
  exact hsub

end Planned

/-- **A plan partitions the declarations.** Where the links of a store agree and the rules below a
node hold declarations only, a plan that is made takes each declaration that asks for a fluid size
out of its rule, and no declaration twice. -/
theorem Run.isPartitioned_of_plan_ok {options : Options} {root : NodeId} {s t : Session}
    {es : List Expansion} (hs : s.forest.WellFormed)
    (hrules : s.forest.RulesHoldDeclarations root) (h : Run.plan options root s = .ok es t) :
    s.forest.IsPartitioned root es := by
  obtain ⟨⟨last, hinterpolations⟩, hplanned⟩ := Run.plan_ok hs hrules h
  have hplain : ∀ rule ∈ s.forest.rulesBelow root, s.forest.IsPlainRule rule :=
    fun rule hrule => hrules.isPlainRule hs hrule
  have hnodup := hs.nodup_rulesBelow root
  have hprop : ∀ e ∈ es, e.output.prop = (s.forest.content e.decl).prop := fun e he =>
    hplanned.output_prop hs hplain (Forest.interpolations_ok hinterpolations) he
  have hsites := hplanned.map_site hs hplain hprop
  constructor
  case nodup_sites => exact hsites ▸ Planned.nodup_sites hnodup
  case mem_sites_iff =>
    intro rule name
    rw [hsites, Planned.mem_sites_iff hs hplain]
  case isLast =>
    intro e he
    obtain ⟨p, earlier, later, hchildren, hasks, hlater, hspent⟩ :=
      hplanned.exists_isLast hs hplain he
    refine ⟨p, earlier, later, ?_, hchildren, hasks, hlater, hspent⟩
    rw [hprop e he]
    rw [Forest.asksFor, Bool.and_eq_true, beq_iff_eq] at hasks
    exact hasks.1
  case nodup_taken => exact hplanned.nodup_taken hs hplain hnodup
  case mem_children =>
    intro e he d hd
    rcases List.mem_cons.1 hd with rfl | hspent
    · exact hplanned.decl_mem hs hplain he
    · exact hplanned.spent_mem hs hplain he hspent
  case exists_taken =>
    intro rule hrule d hd p hasks
    exact hplanned.exists_taken hs hplain hrule hd hasks
  case ordered => exact hplanned.ordered hs hplain

/-- Two rules, of which the first asks for fluid sizes of all three properties in turns, and of two
of them twice. -/
def interleavedSizes : Sheet :=
  ⟨[.rule ".a" none [.declaration "font-size" "fluid 1em 2em" none,
      .declaration "line-height" "fluid" none, .declaration "min-font-size" "12px" none,
      .declaration "font-size" "fluid 14px 20px" none, .declaration "letter-spacing" "fluid" none,
      .declaration "line-height" "fluid" none, .declaration "font-range" "20em 80em" none],
    .atBlock "media" "print" none
      [.rule ".a" none [.declaration "font-size" "fluid" none]]], none, none⟩

/-- The first rule has an expansion of each property, in the order of the declarations that ask for
them last, and the second rule has one more. -/
theorem Run.isPartitioned_of_plan_ok_interleavedSizes :
    ∃ es t, interleavedSizes.session.2.forest.WellFormed ∧
      interleavedSizes.session.2.forest.RulesHoldDeclarations interleavedSizes.session.1 ∧
      Run.plan Options.builtin interleavedSizes.session.1 interleavedSizes.session.2 = .ok es t ∧
      es.map Expansion.key = [(7, 3, [6, 2, 0]), (7, 4, []), (7, 5, [1]), (9, 8, [])] ∧
      interleavedSizes.session.2.forest.IsPartitioned interleavedSizes.session.1 es := by
  obtain ⟨hs, hholds⟩ := interleavedSizes.session_ok
  have hrules := hholds.rulesHoldDeclarations hs (by decide)
  obtain ⟨es, t, hplan, hkeys⟩ := exists_ok_of_givesResult
    (p := fun es => es.map Expansion.key ==
      [(7, 3, [6, 2, 0]), (7, 4, []), (7, 5, [1]), (9, 8, [])])
    (r := Run.plan Options.builtin interleavedSizes.session.1 interleavedSizes.session.2)
    (by decide +kernel)
  exact ⟨es, t, hs, hrules, hplan, by simpa using hkeys,
    Run.isPartitioned_of_plan_ok hs hrules hplan⟩

end FluidCss
