import FluidCss.Proofs.Sizing.Result
import FluidCss.Proofs.Sizing.Sheets

set_option autoImplicit false

/-! # One rule, in a store and as a tree

What a run does to the declarations of a rule, compared with `Node.expandedInRule`: declaration by
declaration, the plan has an expansion where the recursion makes an interpolation, and what stands
in the place of the declaration is what the recursion puts there. -/

namespace FluidCss

open Forest

/-! ## Declarations as nodes and as what they say -/

namespace Forest

variable {f : Forest} {n : NodeId} {t : Node} {ns : List NodeId} {ts : List Node}

/-- A tree that is a declaration is held by a node that says the same. -/
theorem asDeclared_of_holds {prop value : String} {source : Option Position}
    (h : f.Holds n (.declaration prop value source)) : f.asDeclared n = ⟨n, prop, value⟩ := by
  rw [asDeclared, h.1]
  rfl

/-- A property of what single declarations say holds of some tree exactly if it holds of some
node. -/
theorem any_of_holdsAll {test : Node → Bool} {test' : Declared NodeId → Bool}
    (htest : ∀ n prop value source,
      test (.declaration prop value source) = test' ⟨n, prop, value⟩)
    (hts : ts.all Node.isDeclaration = true) (h : f.HoldsAll ns ts) :
    ts.any test = (ns.map f.asDeclared).any test' := by
  induction ts generalizing ns with
  | nil =>
    cases ns with
    | nil => rfl
    | cons n ns => exact absurd h (by simp [HoldsAll])
  | cons t ts ih =>
    cases ns with
    | nil => exact absurd h (by simp [HoldsAll])
    | cons n ns =>
      rw [List.all_cons, Bool.and_eq_true] at hts
      rw [List.any_cons, List.map_cons, List.any_cons, ih hts.2 h.2]
      cases t with
      | declaration prop value source => rw [asDeclared_of_holds h.1, htest]
      | _ => exact absurd hts.1 (by simp [Node.isDeclaration])

theorem declared_of_holdsAll (hts : ts.all Node.isDeclaration = true) (h : f.HoldsAll ns ts) :
    Node.declared ts = (ns.map f.asDeclared).map Declared.forget := by
  induction ts generalizing ns with
  | nil =>
    cases ns with
    | nil => rfl
    | cons n ns => exact absurd h (by simp [HoldsAll])
  | cons t ts ih =>
    cases ns with
    | nil => exact absurd h (by simp [HoldsAll])
    | cons n ns =>
      rw [List.all_cons, Bool.and_eq_true] at hts
      cases t with
      | declaration prop value source =>
        rw [List.map_cons, List.map_cons, asDeclared_of_holds h.1, ← ih hts.2 h.2]
        rfl
      | _ => exact absurd hts.1 (by simp [Node.isDeclaration])

theorem ask_of_holdsAll (p : Property) (hts : ts.all Node.isDeclaration = true)
    (h : f.HoldsAll ns ts) : Node.ask p ts = (ns.map f.asDeclared).any (Declared.asks p) :=
  any_of_holdsAll (fun _ _ _ _ => rfl) hts h

theorem map_asDeclared_concat (f : Forest) (ns : List NodeId) (n : NodeId) :
    ns.map f.asDeclared ++ [f.asDeclared n] = (ns ++ [n]).map f.asDeclared := by
  rw [List.map_append, List.map_singleton]

end Forest

namespace Node

variable {all rest : List Node} {make : Property → Reporting Interpolation} {n : Node}
  {p : Property} {outputs : List Interpolation} {others : List Node} {r r₁ r' : Report}

/-- A node that asks for no fluid size stays, unless it is spent. -/
theorem expandedInRule_cons_of_none (hn : n.fluidProperty? = none)
    (hrest : expandedInRule all make rest r = .ok (outputs, others) r') :
    expandedInRule all make (n :: rest) r =
      .ok (outputs, (if n.isSpent all then [] else [n]) ++ others) r' := by
  rw [expandedInRule, hn]
  dsimp only
  by_cases hspent : n.isSpent all = true
  · rw [if_pos hspent, if_pos hspent, List.nil_append, hrest]
  · rw [if_neg hspent, if_neg hspent, bind_of_ok hrest]
    rfl

/-- A node that is overridden behind it disappears. -/
theorem expandedInRule_cons_of_ask (hn : n.fluidProperty? = some p) (hask : ask p rest = true) :
    expandedInRule all make (n :: rest) = expandedInRule all make rest := by
  rw [expandedInRule, hn]
  dsimp only
  rw [if_pos hask]

/-- The last node that asks for a fluid size of a property becomes two declarations. -/
theorem expandedInRule_cons_of_not_ask (hn : n.fluidProperty? = some p)
    (hask : ¬ ask p rest = true) {i : Interpolation} (hmake : make p r = .ok i r₁)
    (hrest : expandedInRule all make rest r₁ = .ok (outputs, others) r') :
    expandedInRule all make (n :: rest) r = .ok (i :: outputs, pair i n.source ++ others) r' := by
  rw [expandedInRule, hn]
  dsimp only
  rw [if_neg hask, bind_of_ok hmake, bind_of_ok hrest]
  rfl

end Node

/-- An interpolation for the tree of a rule is one for the rule. -/
theorem interpolate_of_holdsAll {f : Forest} {rule : NodeId} {ts : List Node} (hf : f.WellFormed)
    (hrule : f.IsPlainRule rule) (hts : ts.all Node.isDeclaration = true)
    (h : f.HoldsAll (f.children rule) ts) (options : Options) (size : String) :
    Node.interpolate options (f.site rule) size ts = f.interpolate options size rule := by
  funext p
  rw [Node.interpolate, declared_of_holdsAll hts h, Declared.boundsOf_map_forget,
    ← hrule.declared_eq hf]
  rfl

/-- What is known of the part of a plan that belongs to the declarations of a rule behind `before`:
it has their interpolations, and it is known which of them it expands. -/
structure RulePart (f : Forest) (options : Options) (size : String) (rule : NodeId)
    (before ks : List NodeId) (es : List Expansion) (r r' : Report) : Prop where
  run_eq : f.interpolationsOf options size rule (Declared.expandingFrom
    (before.map f.asDeclared) (ks.map f.asDeclared)) r = .ok (es.map (·.output)) r'
  keys_eq : es.map Expansion.key = (Declared.expandingFrom
    (before.map f.asDeclared) (ks.map f.asDeclared)).map (f.keyOf rule)

namespace RulePart

variable {f : Forest} {options : Options} {size : String} {rule k : NodeId}
  {before ks : List NodeId} {es : List Expansion} {r r' : Report} {q : Property}

theorem of_nil (h : RulePart f options size rule before [] es r r') : es = [] ∧ r' = r := by
  obtain ⟨-, rfl⟩ := pure_eq_ok_iff.1 h.run_eq
  exact ⟨by simpa [Declared.expandingFrom_nil] using h.keys_eq, rfl⟩

/-- A declaration that asks for nothing has no expansion. -/
theorem of_none (h : RulePart f options size rule before (k :: ks) es r r')
    (hk : (f.asDeclared k).fluidProperty? = none) :
    RulePart f options size rule (before ++ [k]) ks es r r' := by
  obtain ⟨hrun, hkeys⟩ := h
  rw [List.map_cons, Declared.expandingFrom_cons_of_none hk, map_asDeclared_concat] at hrun hkeys
  exact ⟨hrun, hkeys⟩

/-- A declaration that is overridden has no expansion. -/
theorem of_asks (h : RulePart f options size rule before (k :: ks) es r r')
    (hk : (f.asDeclared k).fluidProperty? = some q)
    (hasks : (ks.map f.asDeclared).any (Declared.asks q) = true) :
    RulePart f options size rule (before ++ [k]) ks es r r' := by
  obtain ⟨hrun, hkeys⟩ := h
  rw [List.map_cons, Declared.expandingFrom_cons_of_some hk, if_pos hasks,
    map_asDeclared_concat] at hrun hkeys
  exact ⟨hrun, hkeys⟩

/-- The last declaration that asks for a fluid size of a property has the first expansion. -/
theorem of_not_asks (h : RulePart f options size rule before (k :: ks) es r r')
    (hk : (f.asDeclared k).fluidProperty? = some q)
    (hasks : ¬ (ks.map f.asDeclared).any (Declared.asks q) = true) :
    ∃ e rest r₁, es = e :: rest ∧ e.decl = k ∧
      f.interpolate options size rule q r = .ok e.output r₁ ∧
        RulePart f options size rule (before ++ [k]) ks rest r₁ r' := by
  obtain ⟨hrun, hkeys⟩ := h
  rw [List.map_cons, Declared.expandingFrom_cons_of_some hk, if_neg hasks,
    map_asDeclared_concat] at hrun hkeys
  obtain _ | ⟨e, rest⟩ := es
  · exact absurd hkeys (by simp)
  obtain ⟨hkey, hkeys⟩ := List.cons.inj hkeys
  rw [interpolationsOf_cons] at hrun
  obtain ⟨i, r₁, hi, hrun⟩ := bind_eq_ok_iff.1 hrun
  obtain ⟨outputs, r₂, hrest, hrun⟩ := bind_eq_ok_iff.1 hrun
  obtain ⟨houtputs, rfl⟩ := pure_eq_ok_iff.1 hrun
  obtain ⟨rfl, rfl⟩ := List.cons.inj houtputs
  exact ⟨e, rest, r₁, rfl, congrArg (·.2.1) hkey, hi, hrest, hkeys⟩

end RulePart

/-! ## What becomes of a declaration -/

namespace Planned

variable {f p : Forest} {es : List Expansion} {rules : List NodeId} {rule : NodeId}

/-- Each expanded declaration of a rule has its expansion in the plan. -/
theorem exists_of_entry (h : Planned f p es (rules.flatMap f.keys)) (hrule : rule ∈ rules)
    {entry : Property × Declared NodeId × List (Declared NodeId)}
    (hentry : entry ∈ Declared.expanding (f.declared rule)) :
    ∃ e ∈ es, e.key = f.keyOf rule entry := by
  have hmem : f.keyOf rule entry ∈ es.map Expansion.key := by
    rw [h.keys_eq]
    exact List.mem_flatMap.2 ⟨rule, hrule, List.mem_map_of_mem hentry⟩
  obtain ⟨e, he, hkey⟩ := List.mem_map.1 hmem
  exact ⟨e, he, hkey⟩

end Planned

theorem Property.mem_all (q : Property) : q ∈ Property.all := by
  cases q <;> decide

namespace Carried

variable {f p g : Forest} {rules : List NodeId} {es : List Expansion} {rule k : NodeId}

/-- A declaration that is of no use once another one is expanded is gone. -/
theorem images_of_mem_spentOn (h : Carried f p g rules es) (hrule : rule ∈ rules)
    {q : Property} {d : Declared NodeId} {overridden : List (Declared NodeId)}
    (hentry : (q, d, overridden) ∈ Declared.expanding (f.declared rule))
    (hk : f.asDeclared k ∈ Declared.spentOn q (f.declared rule) overridden) :
    Expansion.images es k = [] := by
  obtain ⟨e, he, hkey⟩ := h.planned.exists_of_entry hrule hentry
  refine h.images_spent he ?_
  have hspent : e.spent = (Declared.spentOn q (f.declared rule) overridden).map (·.key) :=
    congrArg (·.2.2) hkey
  rw [hspent]
  exact List.mem_map.2 ⟨f.asDeclared k, hk, rfl⟩

/-- A fluid declaration with another one of its property behind it is gone. -/
theorem images_of_overridden (h : Carried f p g rules es) (hrule : rule ∈ rules)
    {before behind : List (Declared NodeId)} {q : Property}
    (hds : f.declared rule = before ++ f.asDeclared k :: behind)
    (hk : (f.asDeclared k).asks q = true) (hbehind : behind.any (Declared.asks q) = true) :
    Expansion.images es k = [] := by
  have hmem : f.asDeclared k ∈ f.declared rule := by simp [hds]
  obtain ⟨last, overridden, hentry, hlast⟩ := Declared.exists_mem_expanding hmem hk
  refine h.images_of_mem_spentOn hrule hentry (Declared.mem_spentOn_iff.2 (.inr ?_))
  refine hlast.resolve_left ?_
  -- the last one of its property has none behind it
  rintro rfl
  obtain ⟨xs, ys, hds', -, hys, -⟩ := Declared.mem_expanding_iff.1 hentry
  have hnodup := (h.plain rule hrule).nodup_declared h.wellFormed
  have hnot := not_mem_of_nodup_middle (hds ▸ hnodup)
  obtain ⟨-, -, rfl⟩ := (List.append_cons_inj_of_notMem hnot.1 hnot.2).1 (hds.symm.trans hds')
  obtain ⟨y, hy, hasks⟩ := List.any_eq_true.1 hbehind
  exact hys y hy hasks

/-- A declaration that asks for nothing and sets no bounds of what is asked for stays. -/
theorem untouched_of_not_spent (h : Carried f p g rules es) (hrule : rule ∈ rules)
    (hk : k ∈ f.children rule) (hfluid : (f.asDeclared k).fluidProperty? = none)
    (hbounds : ∀ q, (f.declared rule).any (Declared.asks q) = true →
      (f.asDeclared k).setsBounds q = false) : Expansion.Untouched es k := by
  have hplain := h.plain rule hrule
  have hmem : f.asDeclared k ∈ f.declared rule := by
    rw [hplain.declared_eq h.wellFormed]
    exact List.mem_map_of_mem hk
  have hasks : ∀ q, ¬ (f.asDeclared k).asks q = true := by
    intro q hq
    rw [Declared.asks_iff, hfluid] at hq
    exact absurd hq (by simp)
  -- an expansion that touches it would be one of its own rule
  intro e he
  have hsame : k ∈ e.spent ∨ k = e.decl → e.rule = rule := by
    intro hn
    exact h.wellFormed.eq_of_mem_children (h.mem_children he hn) hk
  obtain ⟨-, q, d, overridden, hentry, hdecl, hspent⟩ := h.planned.exists_entry he
  refine ⟨fun hn => ?_, ?_, ?_⟩
  · rw [hsame (.inl hn)] at hentry hspent
    rw [hspent, List.mem_map] at hn
    obtain ⟨d', hd', hkey⟩ := hn
    obtain rfl : d' = f.asDeclared k :=
      hplain.eq_of_key_eq h.wellFormed (Declared.mem_of_mem_spentOn hentry hd') hmem hkey
    rcases Declared.mem_spentOn_iff.1 hd' with ⟨-, hsets⟩ | hover
    · have hany : (f.declared rule).any (Declared.asks q) = true :=
        List.any_eq_true.2 ⟨d, Declared.mem_of_mem_expanding hentry,
          Declared.asks_of_mem_expanding hentry⟩
      rw [hbounds q hany] at hsets
      exact absurd hsets (by simp)
    · exact hasks q (Declared.asks_of_mem_overridden hentry hover).2
  · intro heq
    rw [hsame (.inr heq)] at hentry
    obtain rfl : d = f.asDeclared k := hplain.eq_of_key_eq h.wellFormed
      (Declared.mem_of_mem_expanding hentry) hmem (hdecl.symm.trans heq.symm)
    exact hasks q (Declared.asks_of_mem_expanding hentry)
  · rintro rfl
    have hdecl := hplain.isDeclaration _ hk
    rw [Content.eq_rule_of_isRule (h.isRule_rule he)] at hdecl
    exact absurd hdecl (by simp [Content.isDeclaration])

/-! ## The declarations of a rule, one after the other -/

section Rule

variable {options : Options} {size : String} {all : List Node} {prop value : String}
  {source : Option Position}

theorem images_of_isSpent (h : Carried f p g rules es) (hrule : rule ∈ rules)
    (hall : all.all Node.isDeclaration = true) (hholds : f.HoldsAll (f.children rule) all)
    (hmem : k ∈ f.children rule) (hk : f.Holds k (.declaration prop value source))
    (hspent : Node.isSpent all (.declaration prop value source) = true) :
    Expansion.images es k = [] := by
  have hplain := h.plain rule hrule
  obtain ⟨q, -, hq⟩ := List.any_eq_true.1 hspent
  rw [Bool.and_eq_true, ask_of_holdsAll q hall hholds, ← hplain.declared_eq h.wellFormed] at hq
  obtain ⟨hask, hsets⟩ := hq
  obtain ⟨d, hd, hasks⟩ := List.any_eq_true.1 hask
  obtain ⟨last, overridden, hentry, -⟩ := Declared.exists_mem_expanding hd hasks
  refine h.images_of_mem_spentOn hrule hentry (Declared.mem_spentOn_iff.2 (.inl ⟨?_, ?_⟩))
  · rw [hplain.declared_eq h.wellFormed]
    exact List.mem_map_of_mem hmem
  · rw [asDeclared_of_holds hk]
    exact hsets

theorem untouched_of_not_isSpent (h : Carried f p g rules es) (hrule : rule ∈ rules)
    (hall : all.all Node.isDeclaration = true) (hholds : f.HoldsAll (f.children rule) all)
    (hmem : k ∈ f.children rule) (hk : f.Holds k (.declaration prop value source))
    (hfluid : (f.asDeclared k).fluidProperty? = none)
    (hspent : ¬ Node.isSpent all (.declaration prop value source) = true) :
    Expansion.Untouched es k := by
  refine h.untouched_of_not_spent hrule hmem hfluid ?_
  intro q hq
  rw [(h.plain rule hrule).declared_eq h.wellFormed, ← ask_of_holdsAll q hall hholds] at hq
  rw [asDeclared_of_holds hk]
  refine Bool.eq_false_iff.2 fun hsets => hspent (List.any_eq_true.2 ⟨q, Property.mem_all q, ?_⟩)
  rw [hq]
  exact hsets

/-- A declaration that asks for nothing stays, unless it is spent. -/
theorem holdsAll_kept (h : Carried f p g rules es) (hrule : rule ∈ rules)
    (hall : all.all Node.isDeclaration = true) (hholds : f.HoldsAll (f.children rule) all)
    (hmem : k ∈ f.children rule) (hk : f.Holds k (.declaration prop value source))
    (hfluid : (f.asDeclared k).fluidProperty? = none) :
    g.HoldsAll (Expansion.images es k)
      (if Node.isSpent all (.declaration prop value source) then []
        else [.declaration prop value source]) := by
  by_cases hspent : Node.isSpent all (.declaration prop value source) = true
  · rw [if_pos hspent, h.images_of_isSpent hrule hall hholds hmem hk hspent]
    trivial
  · have huntouched := h.untouched_of_not_isSpent hrule hall hholds hmem hk hfluid hspent
    rw [if_neg hspent, Expansion.images_of_untouched huntouched]
    exact ⟨h.holds_declaration (h.wellFormed.child_lt_size hmem) hk, trivial⟩

/-- **What becomes of the declarations of a rule** is what the recursion says, from any of them
on. -/
theorem expandedInRule_ok (h : Carried f p g rules es) (hrule : rule ∈ rules)
    (hall : all.all Node.isDeclaration = true) (hholds : f.HoldsAll (f.children rule) all)
    {ts : List Node} (hts : ts.all Node.isDeclaration = true) {before ks : List NodeId}
    (hks : f.children rule = before ++ ks) (hold : f.HoldsAll ks ts) {here : List Expansion}
    (hhere : ∀ e ∈ here, e ∈ es) {r r' : Report}
    (hpart : RulePart f options size rule before ks here r r') :
    ∃ others, Node.expandedInRule all (f.interpolate options size rule) ts r =
        .ok (here.map (·.output), others) r' ∧
      g.HoldsAll (ks.flatMap (Expansion.images es)) others := by
  -- the declarations before those in question are kept, for it depends on them what is overridden
  induction ts generalizing before ks here r with
  | nil =>
    cases ks with
    | cons k ks => exact absurd hold (by simp [HoldsAll])
    | nil =>
      obtain ⟨rfl, rfl⟩ := hpart.of_nil
      exact ⟨[], rfl, trivial⟩
  | cons t ts ih =>
    cases ks with
    | nil => exact absurd hold (by simp [HoldsAll])
    | cons k ks =>
      rw [List.all_cons, Bool.and_eq_true] at hts
      obtain ⟨hk, hks'⟩ := hold
      cases t with
      | declaration prop value source =>
        have hmem : k ∈ f.children rule := by simp [hks]
        have hfluid : (Node.declaration prop value source).fluidProperty? =
            (f.asDeclared k).fluidProperty? := by rw [asDeclared_of_holds hk]; rfl
        have hsplit : f.children rule = (before ++ [k]) ++ ks := by
          rw [hks, List.append_assoc, List.singleton_append]
        rw [List.flatMap_cons]
        cases hproperty : (f.asDeclared k).fluidProperty? with
        | none =>
          rw [hproperty] at hfluid
          obtain ⟨others, hothers, hheld⟩ :=
            ih hts.2 hsplit hks' hhere (hpart.of_none hproperty)
          exact ⟨_, Node.expandedInRule_cons_of_none hfluid hothers,
            holdsAll_append (h.holdsAll_kept hrule hall hholds hmem hk hproperty) hheld⟩
        | some q =>
          rw [hproperty] at hfluid
          have hask : Node.ask q ts = (ks.map f.asDeclared).any (Declared.asks q) :=
            ask_of_holdsAll q hts.2 hks'
          by_cases hany : (ks.map f.asDeclared).any (Declared.asks q) = true
          · have hds : f.declared rule =
                before.map f.asDeclared ++ f.asDeclared k :: ks.map f.asDeclared := by
              rw [(h.plain rule hrule).declared_eq h.wellFormed, hks, List.map_append,
                List.map_cons]
            rw [Node.expandedInRule_cons_of_ask hfluid (hask.trans hany),
              h.images_of_overridden hrule hds (Declared.asks_iff.2 hproperty) hany,
              List.nil_append]
            exact ih hts.2 hsplit hks' hhere (hpart.of_asks hproperty hany)
          · obtain ⟨e, rest, r₁, rfl, rfl, hi, hrest⟩ := hpart.of_not_asks hproperty hany
            obtain ⟨others, hothers, hheld⟩ := ih hts.2 hsplit hks'
              (fun e' he' => hhere e' (by simp [he'])) hrest
            refine ⟨_, Node.expandedInRule_cons_of_not_ask hfluid (by rwa [hask]) hi hothers, ?_⟩
            have he : e ∈ es := hhere e (by simp)
            have hsource : f.source e.decl = source := hk.2.1
            rw [h.images_decl he, Node.source, ← hsource]
            exact holdsAll_append (h.holdsAll_pair he) hheld
      | _ => exact absurd hts.1 (by simp [Node.isDeclaration])

end Rule

end Carried

end FluidCss
