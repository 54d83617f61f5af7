import FluidCss.Proofs.Forest.Rearranging
import FluidCss.Proofs.Sizing.Planning

set_option autoImplicit false

/-! # What carrying out a plan does to a store

An expansion is a rearrangement: `Expansion.image` says what stands in the place of each node
afterwards. It is carried out without fail as long as its rule and its declaration are attached and
its nodes are not; and then so are those of the expansions behind it (`Ready`). So a plan that has
been made is carried out as a whole, and a run fails before the first node is moved or not at
all. -/

namespace FluidCss

open Forest

namespace Expansion

/-- What stands in the place of a node once an expansion has been carried out. -/
def image (e : Expansion) (n : NodeId) : List NodeId :=
  if n ∈ e.spent then []
  else if n = e.decl then [e.placed.fluidDecl, e.placed.variableDecl]
  else if n = e.rule then [n, e.placed.maxMedia, e.placed.minMedia]
  else [n]

/-- The node from which the place that a node is read from is taken. -/
def origin (e : Expansion) (n : NodeId) : NodeId :=
  if n = e.placed.fluidDecl ∨ n = e.placed.variableDecl then e.decl else n

/-- What is reported of an expansion, in a store that holds its rule and its declaration. -/
def event (e : Expansion) (f : Forest) : Event :=
  .expanded (f.content e.decl).prop (f.content e.rule).selector

/-- What stands in the place of a node once expansions have been carried out one after the other. -/
def images : List Expansion → NodeId → List NodeId
  | [], n => [n]
  | e :: es, n => (e.image n).flatMap (images es)

/-- The node from which the place that a node is read from is taken, after several expansions. -/
def origins : List Expansion → NodeId → NodeId
  | [], n => n
  | e :: es, n => e.origin (origins es n)

end Expansion

/-! ## The steps of an expansion -/

namespace Edit

variable {f : Forest} {bound c p x rule decl a b : NodeId}

/-- Taking nodes out never fails. -/
theorem removeAll_ok (hf : f.WellFormed) (ns : List NodeId) :
    ∃ g, removeAll ns f = .ok () g ∧ Rearranged f g (fun k => if k ∈ ns then [] else [k]) id := by
  induction ns generalizing f with
  | nil => exact ⟨f, rfl, (Rearranged.refl hf).of_eq (fun k => rfl) fun k => rfl⟩
  | cons n ns ih =>
    have hfirst := hf.rearranged_detach n
    obtain ⟨g, hrun, hrest⟩ := ih hfirst.wellFormed
    refine ⟨g, ?_, (hfirst.trans hrest).of_eq (fun k => ?_) fun k => rfl⟩
    · rw [removeAll, bind_of_ok (remove_of_wellFormed hf n), hrun]
    · by_cases hk : k = n <;> simp [hk]

/-- Two nodes are said to be read from where a third one was. -/
theorem rearranged_setSource_setSource (hf : f.WellFormed) (ha : a < f.size) (hb : b < f.size)
    (hx : x ≠ a) :
    Rearranged f ((f.setSource a (f.source x)).setSource b (f.source x)) (fun k => [k])
      fun k => if k = a ∨ k = b then x else k := by
  have hfirst := hf.rearranged_setSource ha x
  have hsource : (f.setSource a (f.source x)).source x = f.source x := by
    rw [source_setSource, if_neg fun h => hx h.1.symm]
  have hsecond := hfirst.wellFormed.rearranged_setSource (hfirst.size_eq.symm ▸ hb) x
  rw [hsource] at hsecond
  refine (hfirst.trans hsecond).of_eq (fun k => rfl) fun k => ?_
  by_cases hkb : k = b
  · simp [hkb, hx]
  · simp [hkb]

/-- Taking old nodes out and saying where two new ones were read from leaves the other old nodes
and all new ones where they are. -/
theorem clear_ok (hf : f.WellFormed) (hclosed : f.ClosedBelow bound) (spent : List NodeId)
    (hx : x < bound) (ha : f.IsNew bound a) (hb : f.IsNew bound b) :
    ∃ g h, removeAll spent f = .ok () g ∧
      (g.setSource a (g.source x)).setSource b (g.source x) = h ∧
      Rearranged f h (fun k => if k ∈ spent then [] else [k])
        (fun k => if k = a ∨ k = b then x else k) ∧
      h.ClosedBelow bound ∧ ∀ n, f.IsNew bound n → h.IsNew bound n := by
  obtain ⟨g, hrun, hfg⟩ := removeAll_ok hf spent
  have hgh := rearranged_setSource_setSource hfg.wellFormed (hfg.size_eq.symm ▸ ha.lt_size)
    (hfg.size_eq.symm ▸ hb.lt_size) (ha.ne hx).symm
  have hall := (hfg.trans hgh).of_eq (τ := fun k => if k ∈ spent then [] else [k])
    (π := fun k => if k = a ∨ k = b then x else k) (fun k => List.flatMap_singleton' _) fun k => rfl
  have hkept : ∀ k, ∀ n ∈ (if k ∈ spent then [] else [k]), n = k := by
    intro k n hn
    split at hn
    · exact absurd hn List.not_mem_nil
    · exact List.mem_singleton.1 hn
  refine ⟨g, _, hrun, rfl, hall, ?_, ?_⟩
  · exact hall.closedBelow hf hclosed fun k n hn _ => hkept k n hn
  · intro n hn
    exact hall.isNew hf (fun k hk => (hkept k n hk).symm) hn

/-- Putting a new node behind an old one leaves the old one and the other new ones as they are. -/
theorem insertAfter_new (hf : f.WellFormed) (hclosed : f.ClosedBelow bound)
    (hx : f.parent x = some c) (hlt : x < bound) (ha : f.IsNew bound a) :
    ∃ g, insertAfter c x [a] f = .ok () g ∧
      Rearranged f g (fun k => if k = x then [k, a] else [k]) id ∧ g.ClosedBelow bound ∧
      g.parent x = some c ∧ ∀ b, a ≠ b → f.IsNew bound b → g.IsNew bound b := by
  have hc : c < bound := hclosed _ _ hlt hx
  obtain ⟨g, hrun, hfg⟩ :=
    insertAfter_ok hf hx ha.lt_size ha.detached (hclosed.not_isAbove hc ha.bound_le)
  have hcases : ∀ k, ∀ n ∈ (if k = x then [k, a] else [k]), n = k ∨ n = a := by
    intro k n hn
    split at hn <;> simp_all
  refine ⟨g, hrun, hfg, ?_, hfg.parent_eq_some hf (by simp) hx, ?_⟩
  · refine hfg.closedBelow hf hclosed fun k n hn hn_lt => (hcases k n hn).resolve_right ?_
    exact (ha.ne hn_lt).symm
  · intro b hab hb
    exact hfg.isNew hf (fun k hk => ((hcases k b hk).resolve_right (Ne.symm hab)).symm) hb

/-- An old declaration is replaced by two new ones. -/
theorem replaceByTwo_ok (hf : f.WellFormed) (hclosed : f.ClosedBelow bound)
    (hdecl : f.parent decl = some c) (hlt : decl < bound) (ha : f.IsNew bound a)
    (hb : f.IsNew bound b) (hne : a ≠ b) :
    ∃ g, (do insertAfter c decl [b]; replaceWith decl [a] : Edit Unit) f = .ok () g ∧
      Rearranged f g (fun k => if k = decl then [a, b] else [k]) id ∧ g.ClosedBelow bound ∧
      ∀ n, n ≠ a ∧ n ≠ b → f.IsNew bound n → g.IsNew bound n := by
  obtain ⟨g, hrun, hfg, hclosed', hdecl', hstays⟩ := insertAfter_new hf hclosed hdecl hlt hb
  have ha' : g.IsNew bound a := hstays a (Ne.symm hne) ha
  obtain ⟨h, hrun', hgh⟩ := replaceWith_ok hfg.wellFormed hdecl' ha'.lt_size ha'.detached
    (hclosed'.not_isAbove (hclosed _ _ hlt hdecl) ha'.bound_le)
  have hall := (hfg.trans hgh).of_eq (τ := fun k => if k = decl then [a, b] else [k]) (π := id)
    (fun k => by by_cases hk : k = decl <;> simp [hk, hb.ne hlt]) fun k => rfl
  have hcases : ∀ k, ∀ n ∈ (if k = decl then [a, b] else [k]), n = k ∨ n = a ∨ n = b := by
    intro k n hn
    split at hn
    · exact .inr (by simpa using hn)
    · exact .inl (List.mem_singleton.1 hn)
  refine ⟨h, ?_, hall, ?_, ?_⟩
  · rw [bind_of_ok hrun, hrun']
  · refine hall.closedBelow hf hclosed fun k n hn hn_lt => (hcases k n hn).resolve_right ?_
    rintro (rfl | rfl)
    · exact ha.ne hn_lt rfl
    · exact hb.ne hn_lt rfl
  · intro n hn hnew
    exact hall.isNew hf (fun k hk => ((hcases k n hk).resolve_right (not_or.2 hn)).symm) hnew

/-- Two new nodes are put behind an old rule. -/
theorem followByTwo_ok (hf : f.WellFormed) (hclosed : f.ClosedBelow bound)
    (hrule : f.parent rule = some p) (hlt : rule < bound) (ha : f.IsNew bound a)
    (hb : f.IsNew bound b) (hne : a ≠ b) :
    ∃ g, (do insertAfter p rule [a]; insertAfter p rule [b] : Edit Unit) f = .ok () g ∧
      Rearranged f g (fun k => if k = rule then [k, b, a] else [k]) id := by
  obtain ⟨g, hrun, hfg, hclosed', hrule', hstays⟩ := insertAfter_new hf hclosed hrule hlt ha
  have hb' : g.IsNew bound b := hstays b hne hb
  obtain ⟨h, hrun', hgh⟩ := insertAfter_ok hfg.wellFormed hrule' hb'.lt_size hb'.detached
    (hclosed'.not_isAbove (hclosed _ _ hlt hrule) hb'.bound_le)
  refine ⟨h, ?_, (hfg.trans hgh).of_eq (fun k => ?_) fun k => rfl⟩
  · rw [bind_of_ok hrun, hrun']
  · by_cases hk : k = rule <;> simp [hk, ha.ne hlt]

end Edit

/-! ## Pending expansions -/

/-- What makes that expansions can be carried out: they belong to nodes before a bound that are
attached and of which none is expanded twice or taken out by any of them; the nodes that they put
into the sheet stand behind the bound, are all different and below no other node. -/
structure Ready (f : Forest) (bound : NodeId) (es : List Expansion) : Prop where
  wellFormed : f.WellFormed
  closedBelow : f.ClosedBelow bound
  decl_parent : ∀ e ∈ es, f.parent e.decl = some e.rule
  rule_parent : ∀ e ∈ es, ∃ p, f.parent e.rule = some p
  decl_lt : ∀ e ∈ es, e.decl < bound
  spent_lt : ∀ e ∈ es, ∀ n ∈ e.spent, n < bound
  decl_not_spent : ∀ e ∈ es, ∀ e' ∈ es, e.decl ∉ e'.spent
  rule_not_spent : ∀ e ∈ es, ∀ e' ∈ es, e.rule ∉ e'.spent
  rule_ne_decl : ∀ e ∈ es, ∀ e' ∈ es, e.rule ≠ e'.decl
  decls_nodup : (es.map (·.decl)).Nodup
  placed_isNew : ∀ n ∈ placedNodes es, f.IsNew bound n
  placed_nodup : (placedNodes es).Nodup

namespace Ready

variable {f g : Forest} {bound : NodeId} {e : Expansion} {es : List Expansion}

theorem rule_lt (h : Ready f bound es) (he : e ∈ es) : e.rule < bound :=
  h.closedBelow _ _ (h.decl_lt e he) (h.decl_parent e he)

theorem mem_placedNodes (he : e ∈ es) {n : NodeId} (hn : n ∈ e.placed.nodes) :
    n ∈ placedNodes es :=
  List.mem_flatMap.2 ⟨e, he, hn⟩

/-- What an expansion puts in the place of a node is the node or a node of the expansion. -/
theorem eq_or_mem_of_mem_image {n k : NodeId} (hn : n ∈ e.image k) :
    n = k ∨ n ∈ e.placed.nodes := by
  unfold Expansion.image at hn
  unfold Placed.nodes
  split_ifs at hn
  · exact absurd hn List.not_mem_nil
  all_goals
    simp only [List.mem_cons, List.not_mem_nil, or_false] at hn ⊢
    tauto

/-- **A pending expansion is carried out without fail.** -/
theorem expand_ok (h : Ready f bound es) (he : e ∈ es) :
    ∃ g, Edit.expand e.rule e.decl e.placed e.spent f = .ok (e.event f) g ∧
      Rearranged f g e.image e.origin := by
  obtain ⟨p, hrule⟩ := h.rule_parent e he
  have hdecl := h.decl_parent e he
  have hdecl_lt := h.decl_lt e he
  have hdecl_spent := h.decl_not_spent e he e he
  have hrule_spent := h.rule_not_spent e he e he
  have hrule_decl := h.rule_ne_decl e he e he
  have hnew : ∀ n ∈ e.placed.nodes, f.IsNew bound n := by
    intro n hn
    exact h.placed_isNew n (mem_placedNodes he hn)
  have hnodup : e.placed.nodes.Nodup := (List.nodup_flatMap.1 h.placed_nodup).1 e he
  obtain ⟨⟨fluid, var, min, max⟩, hplaced⟩ : ∃ placed, placed = e.placed := ⟨_, rfl⟩
  simp only [← hplaced, Placed.nodes, List.nodup_cons, List.mem_cons, List.not_mem_nil, or_false,
    not_or, forall_eq_or_imp, forall_eq] at hnew hnodup
  obtain ⟨hfluid, hvar, hmin, hmax⟩ := hnew
  obtain ⟨⟨hfluid_var, hfluid_min, hfluid_max⟩, ⟨hvar_min, hvar_max⟩, hmin_max, -⟩ := hnodup
  -- the declarations that are of no use any more are taken out, and the new ones are said to be
  -- read from where the old one was
  obtain ⟨f₁, f₂, hrun₁, hf₂, h₂, hclosed₂, hstays₂⟩ :=
    Edit.clear_ok h.wellFormed h.closedBelow e.spent hdecl_lt hfluid hvar
  have hdecl₂ : f₂.parent e.decl = some e.rule :=
    h₂.parent_eq_some h.wellFormed (by simp [hdecl_spent]) hdecl
  have hrule₂ : f₂.parent e.rule = some p :=
    h₂.parent_eq_some h.wellFormed (by simp [hrule_spent]) hrule
  -- they take its place
  obtain ⟨f₃, hrun₃, h₃, hclosed₃, hstays₃⟩ := Edit.replaceByTwo_ok h₂.wellFormed hclosed₂ hdecl₂
    hdecl_lt (hstays₂ _ hfluid) (hstays₂ _ hvar) hfluid_var
  have hrule₃ : f₃.parent e.rule = some p :=
    h₃.parent_eq_some h₂.wellFormed (by simp [hrule_decl]) hrule₂
  -- and the media blocks are put behind the rule
  obtain ⟨f₄, hrun₄, h₄⟩ := Edit.followByTwo_ok h₃.wellFormed hclosed₃ hrule₃ (h.rule_lt he)
    (hstays₃ min ⟨Ne.symm hfluid_min, Ne.symm hvar_min⟩ (hstays₂ _ hmin))
    (hstays₃ max ⟨Ne.symm hfluid_max, Ne.symm hvar_max⟩ (hstays₂ _ hmax)) hmin_max
  have hall := (h₂.trans h₃).trans h₄
  refine ⟨f₄, ?_, hall.of_eq (fun k => ?_) fun k => ?_⟩
  · rw [Edit.expand, bind_of_ok hrun₁, get_bind]
    dsimp only
    rw [← hplaced]
    dsimp only
    rw [bind_of_ok (Edit.setSource_eq ..), bind_of_ok (Edit.setSource_eq ..), hf₂, get_bind, hdecl₂]
    dsimp only
    rw [bind_bind_of_ok hrun₃, get_bind, hrule₃]
    dsimp only
    rw [bind_bind_of_ok hrun₄, Expansion.event, ← hall.content_eq, ← hall.content_eq]
    rfl
  · -- the image of the whole is put together from those of the three steps
    unfold Expansion.image
    rw [← hplaced]
    by_cases hk : k ∈ e.spent
    · simp [hk]
    · by_cases hkd : k = e.decl
      · simp [hkd, hdecl_spent, hfluid.ne (h.rule_lt he), hvar.ne (h.rule_lt he)]
      · by_cases hkr : k = e.rule
        · simp [hkr, hrule_spent, hrule_decl]
        · simp [hk, hkd, hkr]
  · rw [Expansion.origin, ← hplaced]
    rfl

/-- Carrying out the first of the expansions leaves the others to be carried out. -/
theorem tail (h : Ready f bound (e :: es)) (hfg : Rearranged f g e.image e.origin) :
    Ready g bound es := by
  have hmem : ∀ {e'}, e' ∈ es → e' ∈ e :: es := fun he' => List.mem_cons_of_mem e he'
  have hnodup := h.placed_nodup
  rw [placedNodes_cons] at hnodup
  obtain ⟨-, hnodup', hdisjoint⟩ := List.nodup_append.1 hnodup
  have hmem' : ∀ n ∈ placedNodes es, n ∈ placedNodes (e :: es) := by
    intro n hn
    rw [placedNodes_cons]
    exact List.mem_append_right _ hn
  have hdecls := List.nodup_cons.1 h.decls_nodup
  -- no other expansion is about a node that this one removes or puts into the sheet
  constructor
  case wellFormed => exact hfg.wellFormed
  case closedBelow =>
    refine hfg.closedBelow h.wellFormed h.closedBelow ?_
    intro k n hn hlt
    refine (eq_or_mem_of_mem_image hn).resolve_right ?_
    intro hnew
    exact (h.placed_isNew n (mem_placedNodes (List.mem_cons_self ..) hnew)).ne hlt rfl
  case decl_parent =>
    intro e' he'
    refine hfg.parent_eq_some h.wellFormed ?_ (h.decl_parent e' (hmem he'))
    have hne : e'.decl ≠ e.decl := fun heq => hdecls.1 (List.mem_map.2 ⟨e', he', heq⟩)
    have hrule : e'.decl ≠ e.rule := (h.rule_ne_decl e (by simp) e' (hmem he')).symm
    simp [Expansion.image, h.decl_not_spent e' (hmem he') e (by simp), hne, hrule]
  case rule_parent =>
    intro e' he'
    obtain ⟨p, hp⟩ := h.rule_parent e' (hmem he')
    refine ⟨p, hfg.parent_eq_some h.wellFormed ?_ hp⟩
    unfold Expansion.image
    rw [if_neg (h.rule_not_spent e' (hmem he') e (by simp)),
      if_neg (h.rule_ne_decl e' (hmem he') e (by simp))]
    split <;> simp
  case decl_lt => exact fun e' he' => h.decl_lt e' (hmem he')
  case spent_lt => exact fun e' he' => h.spent_lt e' (hmem he')
  case decl_not_spent => exact fun e' he' e'' he'' => h.decl_not_spent e' (hmem he') e'' (hmem he'')
  case rule_not_spent => exact fun e' he' e'' he'' => h.rule_not_spent e' (hmem he') e'' (hmem he'')
  case rule_ne_decl => exact fun e' he' e'' he'' => h.rule_ne_decl e' (hmem he') e'' (hmem he'')
  case decls_nodup => exact hdecls.2
  case placed_isNew =>
    intro n hn
    refine hfg.isNew h.wellFormed (fun k hk => ?_) (h.placed_isNew n (hmem' n hn))
    refine ((eq_or_mem_of_mem_image hk).resolve_right fun hnew => ?_).symm
    exact hdisjoint n hnew n hn rfl
  case placed_nodup => exact hnodup'

end Ready

namespace Run

/-- **Pending expansions are all carried out**, one after the other. -/
theorem expandAll_ok {bound : NodeId} {es : List Expansion} {s : Session}
    (h : Ready s.forest bound es) :
    ∃ t, expandAll es s = .ok () t ∧
      Rearranged s.forest t.forest (Expansion.images es) (Expansion.origins es) := by
  induction es generalizing s with
  | nil => exact ⟨s, rfl, .refl h.wellFormed⟩
  | cons e es ih =>
    obtain ⟨g, hrun, hfirst⟩ := h.expand_ok (List.mem_cons_self ..)
    have hstep : ofEdit (Edit.expand e.rule e.decl e.placed e.spent) s =
        .ok (e.event s.forest) { s with forest := g } := ofEdit_eq_ok_iff.2 ⟨g, hrun, rfl⟩
    have hlog := ofReporting_log (e.event s.forest) { s with forest := g }
    obtain ⟨t, hrest, hall⟩ := ih (s := ⟨g, _⟩) (h.tail hfirst)
    refine ⟨t, ?_, (hfirst.trans hall).of_eq (fun k => rfl) fun k => rfl⟩
    rw [expandAll, bind_of_ok hstep, bind_of_ok hlog, hrest]

end Run

/-! ## Plans are ready to be carried out -/

namespace Forest

variable {f g : Forest} {rule : NodeId}

namespace IsPlainRule

variable {d e : Declared NodeId}

theorem key_mem_children (h : f.IsPlainRule rule) (hf : f.WellFormed)
    (hd : d ∈ f.declared rule) : d.key ∈ f.children rule := by
  rw [← h.map_key_declared hf]
  exact List.mem_map_of_mem hd

/-- The declarations of a rule are known by their keys. -/
theorem eq_of_key_eq (h : f.IsPlainRule rule) (hf : f.WellFormed) (hd : d ∈ f.declared rule)
    (he : e ∈ f.declared rule) (heq : d.key = e.key) : d = e := by
  rw [h.declared_eq hf, List.mem_map] at hd he
  obtain ⟨n, -, rfl⟩ := hd
  obtain ⟨m, -, rfl⟩ := he
  obtain rfl : n = m := heq
  rfl

theorem nodup_declared (h : f.IsPlainRule rule) (hf : f.WellFormed) :
    (f.declared rule).Nodup := by
  refine List.Nodup.of_map (·.key) ?_
  rw [h.map_key_declared hf]
  exact hf.nodup rule

/-- The declarations of a rule that are expanded are different ones. -/
theorem nodup_expanding (h : f.IsPlainRule rule) (hf : f.WellFormed) :
    ((Declared.expanding (f.declared rule)).map fun entry => entry.2.1.key).Nodup := by
  have hsub := (Declared.sublist_expandingFrom [] (f.declared rule)).map (·.key)
  rw [List.map_map, h.map_key_declared hf] at hsub
  exact hsub.nodup (hf.nodup rule)

end IsPlainRule

end Forest

namespace Planned

variable {f g : Forest} {es : List Expansion} {rules : List NodeId} {e : Expansion}

/-- Each expansion of a plan is the one of an expanded declaration of one of the rules. -/
theorem exists_entry (h : Planned f g es (rules.flatMap f.keys)) (he : e ∈ es) :
    e.rule ∈ rules ∧ ∃ p d overridden,
      (p, d, overridden) ∈ Declared.expanding (f.declared e.rule) ∧ e.decl = d.key ∧
        e.spent = (Declared.spentOn p (f.declared e.rule) overridden).map (·.key) := by
  have hmem : e.key ∈ rules.flatMap f.keys := by
    rw [← h.keys_eq]
    exact List.mem_map_of_mem he
  obtain ⟨rule, hrule, hkey⟩ := List.mem_flatMap.1 hmem
  obtain ⟨⟨p, d, overridden⟩, hentry, hkey⟩ := List.mem_map.1 hkey
  obtain ⟨rfl, hdecl, hspent⟩ : rule = e.rule ∧ d.key = e.decl ∧
      (Declared.spentOn p (f.declared rule) overridden).map (·.key) = e.spent := by
    simpa [keyOf, Expansion.key] using hkey
  exact ⟨hrule, p, d, overridden, hentry, hdecl.symm, hspent.symm⟩

theorem decl_mem (h : Planned f g es (rules.flatMap f.keys)) (hf : f.WellFormed)
    (hrules : ∀ rule ∈ rules, f.IsPlainRule rule) (he : e ∈ es) :
    e.decl ∈ f.children e.rule := by
  obtain ⟨hrule, p, d, overridden, hentry, hdecl, -⟩ := h.exists_entry he
  rw [hdecl]
  exact (hrules _ hrule).key_mem_children hf (Declared.mem_of_mem_expanding hentry)

theorem spent_mem (h : Planned f g es (rules.flatMap f.keys)) (hf : f.WellFormed)
    (hrules : ∀ rule ∈ rules, f.IsPlainRule rule) (he : e ∈ es) {n : NodeId} (hn : n ∈ e.spent) :
    n ∈ f.children e.rule := by
  obtain ⟨hrule, p, d, overridden, hentry, -, hspent⟩ := h.exists_entry he
  rw [hspent, List.mem_map] at hn
  obtain ⟨d', hd', rfl⟩ := hn
  exact (hrules _ hrule).key_mem_children hf (Declared.mem_of_mem_spentOn hentry hd')

/-- No declaration is both expanded and taken out. -/
theorem decl_not_mem_spent (h : Planned f g es (rules.flatMap f.keys)) (hf : f.WellFormed)
    (hrules : ∀ rule ∈ rules, f.IsPlainRule rule) (he : e ∈ es) {e' : Expansion} (he' : e' ∈ es) :
    e.decl ∉ e'.spent := by
  intro hmem
  -- what is taken out is in the same rule
  have hsame : e.rule = e'.rule :=
    hf.eq_of_mem_children (h.decl_mem hf hrules he) (h.spent_mem hf hrules he' hmem)
  obtain ⟨hrule, p, d, overridden, hentry, hdecl, -⟩ := h.exists_entry he
  obtain ⟨-, q, d', overridden', hentry', -, hspent'⟩ := h.exists_entry he'
  rw [← hsame] at hentry' hspent'
  rw [hdecl, hspent', List.mem_map] at hmem
  obtain ⟨d'', hd'', hkey⟩ := hmem
  have hplain := hrules _ hrule
  have heq : d'' = d := hplain.eq_of_key_eq hf (Declared.mem_of_mem_spentOn hentry' hd'')
    (Declared.mem_of_mem_expanding hentry) hkey
  rw [heq] at hd''
  exact Declared.not_mem_spentOn (hplain.nodup_declared hf) hentry hentry' hd''

/-- No declaration is expanded twice. -/
theorem nodup_decls (h : Planned f g es (rules.flatMap f.keys)) (hf : f.WellFormed)
    (hrules : ∀ rule ∈ rules, f.IsPlainRule rule) (hnodup : rules.Nodup) :
    (es.map (·.decl)).Nodup := by
  have hdecls : es.map (·.decl) = rules.flatMap fun rule =>
      (Declared.expanding (f.declared rule)).map fun entry => entry.2.1.key := by
    calc es.map (·.decl) = (es.map Expansion.key).map (·.2.1) := by rw [List.map_map]; rfl
      _ = _ := by
        rw [h.keys_eq, List.map_flatMap]
        refine List.flatMap_congr ?_
        intro rule _
        rw [keys, List.map_map]
        rfl
  -- within one rule by the order of the declarations, across rules by their parents
  rw [hdecls, List.nodup_flatMap]
  refine ⟨fun rule hrule => (hrules rule hrule).nodup_expanding hf, ?_⟩
  refine hnodup.imp_of_mem fun {r r'} hr hr' hne n hn hn' => hne ?_
  have hchild : ∀ k ∈ rules, n ∈ ((Declared.expanding (f.declared k)).map fun entry =>
      entry.2.1.key) → n ∈ f.children k := by
    intro k hk hmem
    obtain ⟨⟨p, d, overridden⟩, hentry, rfl⟩ := List.mem_map.1 hmem
    exact (hrules k hk).key_mem_children hf (Declared.mem_of_mem_expanding hentry)
  exact hf.eq_of_mem_children (hchild r hr hn) (hchild r' hr' hn')

/-- **A plan for rules that are attached is ready to be carried out.** -/
theorem ready (h : Planned f g es (rules.flatMap f.keys)) (hf : f.WellFormed)
    (hrules : ∀ rule ∈ rules, f.IsPlainRule rule) (hnodup : rules.Nodup)
    (hattached : ∀ rule ∈ rules, ∃ p, f.parent rule = some p) : Ready g f.size es := by
  have hgrows := h.stored.grows
  have hrule : ∀ e ∈ es, e.rule ∈ rules := fun e he => (h.exists_entry he).1
  have hisDeclaration : ∀ e ∈ es, ∀ n ∈ f.children e.rule, ∀ e' ∈ es, e'.rule ≠ n := by
    rintro e he n hn e' he' rfl
    have hdecl := (hrules _ (hrule e he)).isDeclaration _ hn
    rw [Content.eq_rule_of_isRule (hrules _ (hrule e' he')).isRule] at hdecl
    exact absurd hdecl (by simp [Content.isDeclaration])
  constructor
  case wellFormed => exact h.stored.wellFormed
  case closedBelow => exact hf.closedBelow hgrows
  case decl_parent =>
    intro e he
    have hmem := h.decl_mem hf hrules he
    rw [hgrows.parent_eq (hf.child_lt_size hmem)]
    exact hf.parent_of_mem hmem
  case rule_parent =>
    intro e he
    rw [hgrows.parent_eq (hrules _ (hrule e he)).lt_size]
    exact hattached _ (hrule e he)
  case decl_lt => exact fun e he => hf.child_lt_size (h.decl_mem hf hrules he)
  case spent_lt => exact fun e he n hn => hf.child_lt_size (h.spent_mem hf hrules he hn)
  case decl_not_spent => exact fun e he e' he' => h.decl_not_mem_spent hf hrules he he'
  case rule_not_spent =>
    intro e he e' he' hmem
    exact hisDeclaration e' he' _ (h.spent_mem hf hrules he' hmem) e he rfl
  case rule_ne_decl => exact fun e he e' he' => hisDeclaration e' he' _ (h.decl_mem hf hrules he') e he
  case decls_nodup => exact h.nodup_decls hf hrules hnodup
  case placed_isNew => exact fun n hn =>
    ⟨(h.stored.fresh n hn).1, (h.stored.fresh n hn).2, h.stored.detached n hn⟩
  case placed_nodup => exact h.stored.nodup

end Planned

/-- The rules below a node are attached. -/
theorem Forest.WellFormed.exists_parent_of_mem_rulesBelow {f : Forest} (hf : f.WellFormed)
    {root rule : NodeId} (h : rule ∈ f.rulesBelow root) : ∃ p, f.parent rule = some p := by
  obtain ⟨p, hp, -⟩ := hf.exists_parent_of_mem_walk root rule (List.mem_filter.1 h).1
  exact ⟨p, hp⟩

/-- A plan for a sheet is ready to be carried out. -/
theorem Run.ready_of_plan_ok {options : Options} {root : NodeId} {es : List Expansion}
    {s t : Session} (hs : s.forest.WellFormed) (hrules : s.forest.RulesHoldDeclarations root)
    (h : plan options root s = .ok es t) : Ready t.forest s.forest.size es :=
  (plan_ok hs hrules h).2.ready hs (fun _ hrule => hrules.isPlainRule hs hrule)
    (hs.nodup_rulesBelow root) fun _ hrule => hs.exists_parent_of_mem_rulesBelow hrule

end FluidCss
