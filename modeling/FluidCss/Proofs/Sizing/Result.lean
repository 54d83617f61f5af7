import FluidCss.Proofs.Sizing.Effect
import FluidCss.Sizing.Expanded

set_option autoImplicit false

/-! # What stands where after a run

What expansions put in the place of a node once all of them have been carried out, and which trees
are then held by the nodes: a rule is followed by its media blocks, an expanded declaration has
become two, one that is of no use any more is gone, and everything else is as it was. -/

namespace FluidCss

open Forest

namespace Expansion

variable {es : List Expansion} {e : Expansion} {n rule : NodeId}

/-- Whether no expansion puts anything in the place of a node or next to it. -/
def Untouched (es : List Expansion) (n : NodeId) : Prop :=
  ∀ e ∈ es, n ∉ e.spent ∧ n ≠ e.decl ∧ n ≠ e.rule

/-- The nodes that have been put behind a rule by expansions. -/
def mediaIds (es : List Expansion) : List NodeId :=
  es.reverse.flatMap fun e => [e.placed.maxMedia, e.placed.minMedia]

theorem image_of_untouched (h : n ∉ e.spent ∧ n ≠ e.decl ∧ n ≠ e.rule) : e.image n = [n] := by
  rw [image, if_neg h.1, if_neg h.2.1, if_neg h.2.2]

theorem images_of_untouched (h : Untouched es n) : images es n = [n] := by
  induction es with
  | nil => rfl
  | cons e es ih =>
    rw [images, image_of_untouched (h e (by simp)), List.flatMap_singleton]
    exact ih fun e' he' => h e' (by simp [he'])

/-- What is taken out by an expansion is gone. -/
theorem images_of_spent (he : e ∈ es) (hn : n ∈ e.spent)
    (hother : ∀ e' ∈ es, n ≠ e'.decl ∧ n ≠ e'.rule) : images es n = [] := by
  induction es with
  | nil => exact absurd he List.not_mem_nil
  | cons e' es ih =>
    rw [images]
    -- another expansion of the list may already have taken it out
    by_cases hmem : n ∈ e'.spent
    · rw [image, if_pos hmem, List.flatMap_nil]
    · rw [image_of_untouched ⟨hmem, hother e' (by simp)⟩, List.flatMap_singleton]
      refine ih ?_ fun e'' he'' => hother e'' (by simp [he''])
      rcases List.mem_cons.1 he with rfl | he
      · exact absurd hn hmem
      · exact he

theorem images_of_placed (hplaced : ∀ k ∈ placedNodes (e :: es), Untouched (e :: es) k) :
    ∀ k ∈ e.placed.nodes, images es k = [k] := by
  intro k hk
  have huntouched := hplaced k (Ready.mem_placedNodes (by simp) hk)
  exact images_of_untouched fun e' he' => huntouched e' (by simp [he'])

theorem untouched_of_cons (hplaced : ∀ k ∈ placedNodes (e :: es), Untouched (e :: es) k) :
    ∀ k ∈ placedNodes es, Untouched es k := by
  intro k hk e' he'
  refine hplaced k ?_ e' (by simp [he'])
  rw [placedNodes_cons]
  exact List.mem_append_right _ hk

section Placed

variable (hplaced : ∀ k ∈ placedNodes es, Untouched es k)

include hplaced

/-- **A rule is followed by its media blocks**, those of the last expansion first. -/
theorem images_of_rule (hrule : ∀ e ∈ es, rule ∉ e.spent ∧ rule ≠ e.decl) :
    images es rule = rule :: mediaIds (es.filter fun e => e.rule == rule) := by
  induction es with
  | nil => rfl
  | cons e es ih =>
    have hstays := images_of_placed hplaced
    have hrest := ih (untouched_of_cons hplaced) fun e' he' => hrule e' (by simp [he'])
    obtain ⟨hspent, hdecl⟩ := hrule e (by simp)
    rw [images, image, if_neg hspent, if_neg hdecl, List.filter_cons]
    by_cases heq : rule = e.rule
    · rw [if_pos heq, if_pos (by simp [heq])]
      simp only [List.flatMap_cons, List.flatMap_nil, hrest,
        hstays e.placed.maxMedia (by simp [Placed.nodes]),
        hstays e.placed.minMedia (by simp [Placed.nodes]), mediaIds, List.reverse_cons,
        List.flatMap_append]
      simp
    · rw [if_neg heq, if_neg (by simpa using Ne.symm heq), List.flatMap_singleton, hrest]

/-- **An expanded declaration has become two.** -/
theorem images_of_decl (he : e ∈ es) (hnodup : (es.map (·.decl)).Nodup)
    (hother : ∀ e' ∈ es, e.decl ∉ e'.spent ∧ e.decl ≠ e'.rule) :
    images es e.decl = [e.placed.fluidDecl, e.placed.variableDecl] := by
  induction es with
  | nil => exact absurd he List.not_mem_nil
  | cons e' es ih =>
    obtain ⟨hnot, hnodup'⟩ := List.nodup_cons.1 hnodup
    obtain ⟨hspent, hrule⟩ := hother e' (by simp)
    rcases List.mem_cons.1 he with rfl | he
    · have hstays := images_of_placed hplaced
      rw [images, image, if_neg hspent, if_pos rfl, List.flatMap_cons, List.flatMap_cons,
        hstays e.placed.fluidDecl (by simp [Placed.nodes]),
        hstays e.placed.variableDecl (by simp [Placed.nodes])]
      rfl
    · have hdecl : e.decl ≠ e'.decl := fun heq => hnot (List.mem_map.2 ⟨e, he, heq⟩)
      rw [images, image_of_untouched ⟨hspent, hdecl, hrule⟩, List.flatMap_singleton]
      exact ih (untouched_of_cons hplaced) he hnodup' fun e'' he'' => hother e'' (by simp [he''])

end Placed

/-! ## Where nodes are read from -/

/-- Whether a node is a declaration that is put into the sheet. -/
def Relabelled (es : List Expansion) (n : NodeId) : Prop :=
  ∃ e ∈ es, n = e.placed.fluidDecl ∨ n = e.placed.variableDecl

theorem origins_of_not_relabelled (h : ¬ Relabelled es n) : origins es n = n := by
  induction es with
  | nil => rfl
  | cons e es ih =>
    have hrest : ¬ Relabelled es n := fun ⟨e', he', hn⟩ => h ⟨e', by simp [he'], hn⟩
    rw [origins, ih hrest, origin, if_neg fun hn => h ⟨e, by simp, hn⟩]

/-- A declaration that is put into the sheet is read from where the old one was. -/
theorem origins_of_relabelled (he : e ∈ es)
    (hn : n = e.placed.fluidDecl ∨ n = e.placed.variableDecl) (hnodup : (placedNodes es).Nodup)
    (hdecl : ¬ Relabelled es e.decl) : origins es n = e.decl := by
  induction es with
  | nil => exact absurd he List.not_mem_nil
  | cons e' es ih =>
    have hrest : ¬ Relabelled es e.decl := fun ⟨e'', he'', h⟩ => hdecl ⟨e'', by simp [he''], h⟩
    rw [placedNodes_cons] at hnodup
    obtain ⟨-, hnodup', hdisjoint⟩ := List.nodup_append.1 hnodup
    rw [origins]
    rcases List.mem_cons.1 he with rfl | he
    · -- the expansions behind this one have other nodes
      have hnot : ¬ Relabelled es n := by
        rintro ⟨e'', he'', hn'⟩
        refine hdisjoint n ?_ n (Ready.mem_placedNodes he'' ?_) rfl
        · rcases hn with h | h <;> simp [Placed.nodes, h]
        · rcases hn' with h | h <;> simp [Placed.nodes, h]
      rw [origins_of_not_relabelled hnot, origin, if_pos hn]
    · rw [ih he hnodup' hrest, origin, if_neg fun h => hdecl ⟨e', by simp, h⟩]

end Expansion

/-! ## A run that has been carried out -/

/-- Each of several expansions has had its trees made. -/
theorem holdsAll_placed {f : Forest} {es : List Expansion} {e : Expansion} (he : e ∈ es)
    (h : f.HoldsAll (placedNodes es) (placedTrees es)) :
    f.HoldsAll e.placed.nodes e.output.trees := by
  induction es with
  | nil => exact absurd he List.not_mem_nil
  | cons e' es ih =>
    obtain ⟨hfluid, hvariable, hmin, hmax, hrest⟩ := h
    rcases List.mem_cons.1 he with rfl | he
    · exact ⟨hfluid, hvariable, hmin, hmax, trivial⟩
    · exact ih he hrest

/-- A run on the store `f`: it has been planned for rules, with the store `p`, and carried out, with
the store `g`. -/
structure Carried (f p g : Forest) (rules : List NodeId) (es : List Expansion) : Prop where
  wellFormed : f.WellFormed
  plain : ∀ rule ∈ rules, f.IsPlainRule rule
  nodup : rules.Nodup
  planned : Planned f p es (rules.flatMap f.keys)
  ready : Ready p f.size es
  moved : Rearranged p g (Expansion.images es) (Expansion.origins es)

namespace Carried

variable {f p g : Forest} {rules : List NodeId} {es : List Expansion} {e : Expansion} {n : NodeId}

/-! ### Old nodes -/

theorem content_eq (h : Carried f p g rules es) (hn : n < f.size) : g.content n = f.content n := by
  rw [h.moved.content_eq, h.planned.stored.grows.content_eq hn]

theorem children_eq (h : Carried f p g rules es) (hn : n < f.size) :
    g.children n = (f.children n).flatMap (Expansion.images es) := by
  rw [h.moved.children_eq, h.planned.stored.grows.children_eq hn]

theorem not_relabelled (h : Carried f p g rules es) (hn : n < f.size) :
    ¬ Expansion.Relabelled es n := by
  rintro ⟨e, he, hplaced⟩
  refine (h.ready.placed_isNew n (Ready.mem_placedNodes he ?_)).ne hn rfl
  rcases hplaced with rfl | rfl <;> simp [Placed.nodes]

theorem source_eq (h : Carried f p g rules es) (hn : n < f.size) : g.source n = f.source n := by
  rw [h.moved.source_eq, Expansion.origins_of_not_relabelled (h.not_relabelled hn),
    h.planned.stored.grows.source_eq hn]

theorem isRule_rule (h : Carried f p g rules es) (he : e ∈ es) :
    (f.content e.rule).isRule = true :=
  (h.plain _ (h.planned.exists_entry he).1).isRule

/-- What an expansion replaces or takes out is a declaration in its rule. -/
theorem mem_children (h : Carried f p g rules es) (he : e ∈ es)
    (hn : n ∈ e.spent ∨ n = e.decl) : n ∈ f.children e.rule := by
  rcases hn with hn | rfl
  · exact h.planned.spent_mem h.wellFormed h.plain he hn
  · exact h.planned.decl_mem h.wellFormed h.plain he

theorem isDeclaration (h : Carried f p g rules es) (he : e ∈ es)
    (hn : n ∈ e.spent ∨ n = e.decl) : (f.content n).isDeclaration = true :=
  (h.plain _ (h.planned.exists_entry he).1).isDeclaration n (h.mem_children he hn)

theorem untouched_of_size_le (h : Carried f p g rules es) (hn : f.size ≤ n) :
    Expansion.Untouched es n := by
  intro e he
  refine ⟨fun hspent => ?_, ?_, ?_⟩
  · exact absurd (h.ready.spent_lt e he n hspent) (Nat.not_lt_of_le hn)
  · rintro rfl
    exact absurd (h.ready.decl_lt e he) (Nat.not_lt_of_le hn)
  · rintro rfl
    exact absurd (h.ready.rule_lt he) (Nat.not_lt_of_le hn)

theorem untouched_placed (h : Carried f p g rules es) :
    ∀ k ∈ placedNodes es, Expansion.Untouched es k := fun k hk =>
  h.untouched_of_size_le (h.ready.placed_isNew k hk).bound_le

/-- Nodes that are neither rules nor in a rule stay as they are. -/
theorem untouched_of_parent (h : Carried f p g rules es) (hn : (f.content n).isRule = false)
    (hparent : ∀ c, f.parent n = some c → (f.content c).isRule = false) :
    Expansion.Untouched es n := by
  intro e he
  have hnot : ¬ (n ∈ e.spent ∨ n = e.decl) := by
    intro hmem
    have hrule := hparent _ (h.wellFormed.parent_of_mem (h.mem_children he hmem))
    rw [h.isRule_rule he] at hrule
    exact absurd hrule (by simp)
  refine ⟨fun hspent => hnot (.inl hspent), fun hdecl => hnot (.inr hdecl), ?_⟩
  rintro rfl
  rw [h.isRule_rule he] at hn
  exact absurd hn (by simp)

/-- A rule is followed by its media blocks. -/
theorem images_rule (h : Carried f p g rules es) (hn : (f.content n).isRule = true) :
    Expansion.images es n = n :: Expansion.mediaIds (es.filter fun e => e.rule == n) := by
  refine Expansion.images_of_rule h.untouched_placed ?_
  intro e he
  have hnot : ¬ (n ∈ e.spent ∨ n = e.decl) := by
    intro hmem
    have hdecl := h.isDeclaration he hmem
    rw [Content.eq_rule_of_isRule hn] at hdecl
    exact absurd hdecl (by simp [Content.isDeclaration])
  exact ⟨fun hspent => hnot (.inl hspent), fun hdecl => hnot (.inr hdecl)⟩

/-- A declaration that is of no use any more is gone. -/
theorem images_spent (h : Carried f p g rules es) (he : e ∈ es) (hn : n ∈ e.spent) :
    Expansion.images es n = [] := by
  refine Expansion.images_of_spent he hn fun e' he' => ⟨?_, ?_⟩
  · rintro rfl
    exact h.ready.decl_not_spent e' he' e he hn
  · rintro rfl
    exact h.ready.rule_not_spent e' he' e he hn

/-- An expanded declaration has become two. -/
theorem images_decl (h : Carried f p g rules es) (he : e ∈ es) :
    Expansion.images es e.decl = [e.placed.fluidDecl, e.placed.variableDecl] :=
  Expansion.images_of_decl h.untouched_placed he h.ready.decls_nodup fun e' he' =>
    ⟨h.ready.decl_not_spent e he e' he', (h.ready.rule_ne_decl e' he' e he).symm⟩

/-! ### Trees -/

/-- A declaration that stays is held as it was. -/
theorem holds_declaration (h : Carried f p g rules es) {prop value : String}
    {source : Option Position} (hn : n < f.size) (hold : f.Holds n (.declaration prop value source)) :
    g.Holds n (.declaration prop value source) := by
  obtain ⟨hcontent, hsource, hchildren⟩ := hold
  refine ⟨(h.content_eq hn).trans hcontent, (h.source_eq hn).trans hsource, ?_⟩
  rw [h.children_eq hn, hchildren, List.flatMap_nil]

theorem holds_atStatement (h : Carried f p g rules es) {name params : String}
    {source : Option Position} (hn : n < f.size) (hold : f.Holds n (.atStatement name params source)) :
    g.Holds n (.atStatement name params source) := by
  obtain ⟨hcontent, hsource, hchildren⟩ := hold
  refine ⟨(h.content_eq hn).trans hcontent, (h.source_eq hn).trans hsource, ?_⟩
  rw [h.children_eq hn, hchildren, List.flatMap_nil]

/-- The two declarations in the place of an expanded one. -/
theorem holdsAll_pair (h : Carried f p g rules es) (he : e ∈ es) :
    g.HoldsAll [e.placed.fluidDecl, e.placed.variableDecl]
      (Node.pair e.output (f.source e.decl)) := by
  obtain ⟨⟨hfluid, -, hfluid'⟩, ⟨hvariable, -, hvariable'⟩, -⟩ :=
    holdsAll_placed he h.planned.stored.holds
  have hdecl := h.ready.decl_lt e he
  have hsource : ∀ k, k = e.placed.fluidDecl ∨ k = e.placed.variableDecl →
      g.source k = f.source e.decl := by
    intro k hk
    rw [h.moved.source_eq, Expansion.origins_of_relabelled he hk h.ready.placed_nodup
      (h.not_relabelled hdecl), h.planned.stored.grows.source_eq hdecl]
  refine ⟨⟨?_, hsource _ (.inl rfl), ?_⟩, ⟨?_, hsource _ (.inr rfl), ?_⟩, trivial⟩
  · rw [h.moved.content_eq, hfluid]
  · rw [h.moved.children_eq, hfluid', List.flatMap_nil]
  · rw [h.moved.content_eq, hvariable]
  · rw [h.moved.children_eq, hvariable', List.flatMap_nil]

/-- The new nodes that are no declarations in the sheet are held as they were made. -/
theorem holds_of_new (h : Carried f p g rules es) (hn : f.size ≤ n)
    (hnot : ¬ Expansion.Relabelled es n) {t : Node} (hold : p.Holds n t) : g.Holds n t := by
  -- what is below a new node is new as well, and nothing is put anywhere into it
  refine Holds.congr (P := fun k => f.size ≤ k ∧ ¬ Expansion.Relabelled es k) ?_ ?_ ⟨hn, hnot⟩ t
    hold
  · intro k hk c hc
    have hparent := h.ready.wellFormed.parent_of_mem hc
    refine ⟨Nat.le_of_not_lt fun hlt => ?_, ?_⟩
    · exact absurd (h.ready.closedBelow c k hlt hparent) (Nat.not_lt_of_le hk.1)
    · rintro ⟨e, he, hplaced⟩
      have hmem : c ∈ placedNodes es := Ready.mem_placedNodes he (by
        rcases hplaced with rfl | rfl <;> simp [Placed.nodes])
      rw [(h.ready.placed_isNew c hmem).detached] at hparent
      exact absurd hparent (by simp)
  · intro k hk
    refine ⟨h.moved.content_eq k, ?_, ?_⟩
    · rw [h.moved.source_eq, Expansion.origins_of_not_relabelled hk.2]
    · rw [h.moved.children_eq]
      refine flatMap_eq_self fun c hc => Expansion.images_of_untouched ?_
      refine h.untouched_of_size_le (Nat.le_of_not_lt fun hlt => ?_)
      have hparent := h.ready.wellFormed.parent_of_mem hc
      exact absurd (h.ready.closedBelow c k hlt hparent) (Nat.not_lt_of_le hk.1)

/-- The media blocks of an expansion. -/
theorem holds_media (h : Carried f p g rules es) (he : e ∈ es) :
    g.Holds e.placed.maxMedia e.output.maxMedia ∧ g.Holds e.placed.minMedia e.output.minMedia := by
  obtain ⟨-, -, hmin, hmax, -⟩ := holdsAll_placed he h.planned.stored.holds
  have hnew : ∀ k ∈ e.placed.nodes, (p.content k).isDeclaration = false →
      f.size ≤ k ∧ ¬ Expansion.Relabelled es k := by
    intro k hmem hcontent
    refine ⟨(h.ready.placed_isNew k (Ready.mem_placedNodes he hmem)).bound_le, ?_⟩
    -- what is put in the place of a declaration is one
    rintro ⟨e', he', hplaced⟩
    obtain ⟨⟨hfluid, -⟩, ⟨hvariable, -⟩, -⟩ := holdsAll_placed he' h.planned.stored.holds
    rcases hplaced with rfl | rfl
    · rw [hfluid] at hcontent
      exact absurd hcontent (by simp [Content.isDeclaration])
    · rw [hvariable] at hcontent
      exact absurd hcontent (by simp [Content.isDeclaration])
  have hmax' := hnew e.placed.maxMedia (by simp [Placed.nodes]) (by rw [hmax.1]; rfl)
  have hmin' := hnew e.placed.minMedia (by simp [Placed.nodes]) (by rw [hmin.1]; rfl)
  exact ⟨h.holds_of_new hmax'.1 hmax'.2 hmax, h.holds_of_new hmin'.1 hmin'.2 hmin⟩

/-- The media blocks behind a rule. -/
theorem holdsAll_mediaIds (h : Carried f p g rules es) {here : List Expansion}
    (hhere : ∀ e ∈ here, e ∈ es) :
    g.HoldsAll (Expansion.mediaIds here) (Node.mediaBlocks (here.map (·.output))) := by
  induction here with
  | nil => trivial
  | cons e here ih =>
    obtain ⟨hmax, hmin⟩ := h.holds_media (hhere e (by simp))
    have hrest := ih fun e' he' => hhere e' (by simp [he'])
    have hids : Expansion.mediaIds (e :: here) =
        Expansion.mediaIds here ++ [e.placed.maxMedia, e.placed.minMedia] := by
      simp [Expansion.mediaIds]
    have hblocks : Node.mediaBlocks ((e :: here).map (·.output)) =
        Node.mediaBlocks (here.map (·.output)) ++ [e.output.maxMedia, e.output.minMedia] := by
      simp [Node.mediaBlocks]
    rw [hids, hblocks]
    exact holdsAll_append hrest ⟨hmax, hmin, trivial⟩

end Carried

end FluidCss
