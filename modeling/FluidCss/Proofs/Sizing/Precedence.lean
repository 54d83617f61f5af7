import FluidCss.Proofs.Sizing.Partition

set_option autoImplicit false

/-! # Where a bound comes from

Bounds are resolved by going over the declarations of one name after the other and overwriting what
has been found before. What is left in the end can be said without this order of events: a bound is
what the last declaration of it alone says; if there is none, what the last declaration says that
gives a pair of bounds to which it belongs; and the default if there is no such declaration
(`Forest.resolve_eq`). As each step looks at the declarations of one name only, it does not matter
how declarations of different names are mixed. -/

namespace FluidCss

open Number Text

/-! ## Overwriting -/

section Overwriting

variable {α β γ : Type} {step : β → α → β} {give : α → Option γ}

/-- The last of what elements of a list give, if any of them gives something. -/
def lastGiven (give : α → Option γ) (xs : List α) : Option γ := (xs.filterMap give).getLast?

theorem lastGiven_concat (give : α → Option γ) (xs : List α) (x : α) :
    lastGiven give (xs ++ [x]) = (give x).or (lastGiven give xs) := by
  rw [lastGiven, List.filterMap_append, List.getLast?_append, lastGiven]
  cases h : give x <;> simp [h]

theorem lastGiven_map {δ : Type} (give : α → Option γ) (f : δ → α) (xs : List δ) :
    lastGiven give (xs.map f) = lastGiven (give ∘ f) xs := by
  rw [lastGiven, List.filterMap_map, lastGiven]

/-- Where each element overwrites what the elements before it have put, only the last one counts. -/
theorem foldl_eq_lastGiven (put : β → γ → β)
    (hstep : ∀ b x, step b x = (give x).elim b (put b))
    (hput : ∀ b c d, put (put b c) d = put b d) (xs : List α) (b : β) :
    xs.foldl step b = (lastGiven give xs).elim b (put b) := by
  induction xs using List.reverseRecOn with
  | nil => rfl
  | append_singleton xs x ih =>
    rw [List.foldl_concat, ih, hstep, lastGiven_concat]
    cases give x with
    | none => rfl
    | some c =>
      rw [Option.elim_some, Option.some_or, Option.elim_some]
      cases lastGiven give xs with
      | none => rfl
      | some d => exact hput b d c

end Overwriting

/-! ## The three layers over the defaults -/

/-- The two sizes that the value of a fluid declaration gives: its first two numbers. -/
def sizesOf? (value : String) : Option (String × String) :=
  if contains value "fluid" then
    match numericTokens value.toList with
    | min :: max :: _ => some (String.ofList min, String.ofList max)
    | _ => none
  else none

/-- The two widths that the value of a range declaration gives: its first two words. -/
def widthsOf? (value : String) : Option (String × String) :=
  match wordsOf value with
  | min :: max :: _ => some (min, max)
  | _ => none

namespace Bounds

/-- The bounds with other sizes. -/
def withSizes (b : Bounds) (sizes : String × String) : Bounds :=
  { b with minSize := sizes.1, maxSize := sizes.2 }

/-- The bounds with other widths. -/
def withWidths (b : Bounds) (widths : String × String) : Bounds :=
  { b with minWidth := widths.1, maxWidth := widths.2 }

theorem set_set (b : Bounds) (bound : Bound) (s t : String) :
    (b.set bound s).set bound t = b.set bound t := by
  cases bound <;> rfl

end Bounds

namespace Property

/-- What the declarations that give two bounds at once say about a bound, where `values` lists the
values of the declarations of each name in order. -/
def paired? (p : Property) (values : String → List String) : Bound → Option String
  | .minSize => (lastGiven sizesOf? (values p.name)).map (·.1)
  | .maxSize => (lastGiven sizesOf? (values p.name)).map (·.2)
  | .minWidth => (lastGiven widthsOf? (values p.range)).map (·.1)
  | .maxWidth => (lastGiven widthsOf? (values p.range)).map (·.2)

/-- What the declarations say about a bound. -/
def declared? (p : Property) (values : String → List String) (bound : Bound) : Option String :=
  ((values (p.longhand bound)).getLast?.map strip).or (p.paired? values bound)

end Property

namespace Declared

variable {κ : Type} {ds ds' : List (Declared κ)}

/-- The values of the declarations of a name, in order. -/
def values (ds : List (Declared κ)) (name : String) : List String := (named ds name).map (·.value)

theorem foldl_applySizes (ds : List (Declared κ)) (b : Bounds) :
    ds.foldl applySizes b = (lastGiven sizesOf? (ds.map (·.value))).elim b b.withSizes := by
  rw [lastGiven_map]
  refine foldl_eq_lastGiven Bounds.withSizes (fun b d => ?_) (fun _ _ _ => rfl) ds b
  rw [applySizes, Function.comp_apply, sizesOf?, isFluid]
  split
  · rcases numericTokens d.value.toList with _ | ⟨min, _ | ⟨max, _⟩⟩ <;> rfl
  · rfl

theorem foldl_applyRange (ds : List (Declared κ)) (b : Bounds) :
    ds.foldl applyRange b = (lastGiven widthsOf? (ds.map (·.value))).elim b b.withWidths := by
  rw [lastGiven_map]
  refine foldl_eq_lastGiven Bounds.withWidths (fun b d => ?_) (fun _ _ _ => rfl) ds b
  rw [applyRange, Function.comp_apply, widthsOf?]
  rcases wordsOf d.value with _ | ⟨min, _ | ⟨max, _⟩⟩ <;> rfl

theorem foldl_applyLonghand (bound : Bound) (ds : List (Declared κ)) (b : Bounds) :
    ds.foldl (applyLonghand bound) b =
      ((ds.map (·.value)).getLast?.map strip).elim b (b.set bound) := by
  have hlast : (ds.map (·.value)).getLast?.map strip =
      lastGiven (fun d : Declared κ => some (strip d.value)) ds := by
    rw [lastGiven, List.filterMap_eq_map', List.getLast?_map, List.getLast?_map, Option.map_map]
    rfl
  rw [hlast]
  refine foldl_eq_lastGiven (fun b text => b.set bound text) (fun b d => ?_)
    (fun b => b.set_set bound) ds b
  rw [applyLonghand, Option.elim_some]

/-- What declarations of a bound alone do to any bound. -/
theorem get_foldl_applyLonghand (bound other : Bound) (ds : List (Declared κ)) (b : Bounds) :
    (ds.foldl (applyLonghand bound) b).get other =
      if bound = other then ((ds.map (·.value)).getLast?.map strip).getD (b.get other)
      else b.get other := by
  rw [foldl_applyLonghand]
  cases (ds.map (·.value)).getLast?.map strip with
  | none => simp
  | some text => simp [Bounds.get_set]

/-- What declarations of two bounds do to any bound. -/
theorem get_foldl_pairs (p : Property) (defaults : Bounds) (ds : List (Declared κ))
    (bound : Bound) :
    ((named ds p.range).foldl applyRange ((named ds p.name).foldl applySizes defaults)).get bound =
      (p.paired? (values ds) bound).getD (defaults.get bound) := by
  rw [foldl_applyRange, foldl_applySizes]
  cases hsizes : lastGiven sizesOf? ((named ds p.name).map (·.value)) <;>
    cases hwidths : lastGiven widthsOf? ((named ds p.range).map (·.value)) <;>
      cases bound <;>
        simp [Property.paired?, values, hsizes, hwidths, Bounds.get, Bounds.withSizes,
          Bounds.withWidths]

/-- **A bound is what the last declaration says that says something about it, those of it alone
before those of two, or the default.** -/
theorem get_boundsOf (p : Property) (defaults : Bounds) (ds : List (Declared κ)) (bound : Bound) :
    (boundsOf p defaults ds).get bound =
      (p.declared? (values ds) bound).getD (defaults.get bound) := by
  rw [boundsOf, Property.declared?, Option.getD_or, ← get_foldl_pairs]
  simp only [Bound.all, List.foldl_cons, List.foldl_nil, get_foldl_applyLonghand]
  cases bound <;> simp [values]

/-- What is resolved depends on the declarations of each name only, not on how declarations of
different names are mixed. -/
theorem resolve_congr (p : Property) (defaults : Bounds)
    (h : ∀ name, named ds name = named ds' name) :
    resolve p defaults ds = resolve p defaults ds' := by
  simp only [resolve, boundsOf, longhands, h]

end Declared

/-! ## In a store -/

namespace Forest

variable {f : Forest} {rule : NodeId} {ks : List NodeId}

/-- The values of the declarations of a rule with a name, in order. -/
def valuesIn (f : Forest) (rule : NodeId) (name : String) : List String :=
  (f.childrenNamed rule name).map fun d => (f.content d).value

theorem IsPlainRule.named_declared (h : f.IsPlainRule rule) (hf : f.WellFormed) (name : String) :
    Declared.named (f.declared rule) name = (f.childrenNamed rule name).map f.asDeclared := by
  rw [h.declared_eq hf, Declared.named, List.filter_map]
  rfl

theorem IsPlainRule.values_declared (h : f.IsPlainRule rule) (hf : f.WellFormed) :
    Declared.values (f.declared rule) = f.valuesIn rule := by
  funext name
  rw [Declared.values, h.named_declared hf, List.map_map]
  rfl

theorem WellFormed.nodup_flatMap_childrenNamed (hf : f.WellFormed) {names : List String}
    (hnames : names.Nodup) (rule : NodeId) : (names.flatMap (f.childrenNamed rule)).Nodup := by
  rw [List.nodup_flatMap]
  refine ⟨fun name _ => (hf.nodup rule).filter _, hnames.imp ?_⟩
  intro name name' hne d hd hd'
  have hprop := (List.mem_filter.1 hd).2
  have hprop' := (List.mem_filter.1 hd').2
  rw [beq_iff_eq] at hprop hprop'
  exact hne (hprop.symm.trans hprop')

/-- The children of a node may be put into another order. -/
theorem WellFormed.setChildren_perm (hf : f.WellFormed) (hks : ks.Perm (f.children rule)) :
    (f.setChildren rule ks).WellFormed where
  listed_iff n m := by
    rw [children_setChildren, parent_setChildren, ← hf.listed_iff]
    split
    · next h => rw [hks.mem_iff, h.1]
    · rfl
  nodup m := by
    rw [children_setChildren]
    split
    · exact hks.nodup_iff.2 (hf.nodup rule)
    · exact hf.nodup m
  acyclic := by simpa only [parent_setChildren] using hf.acyclic

theorem IsPlainRule.setChildren_perm (h : f.IsPlainRule rule) (hks : ks.Perm (f.children rule)) :
    (f.setChildren rule ks).IsPlainRule rule where
  lt_size := by
    rw [size_setChildren]
    exact h.lt_size
  isRule := by
    rw [content_setChildren]
    exact h.isRule
  isDeclaration d hd := by
    rw [children_setChildren, if_pos ⟨rfl, h.lt_size⟩] at hd
    rw [content_setChildren]
    exact h.isDeclaration d (hks.mem_iff.1 hd)
  children_eq d hd := by
    rw [children_setChildren, if_pos ⟨rfl, h.lt_size⟩] at hd
    have hd := hks.mem_iff.1 hd
    -- the rule is not one of its own declarations
    have hne : rule ≠ d := by
      rintro rfl
      have hdecl := h.isDeclaration rule hd
      have hrule := h.isRule
      cases hc : f.content rule <;> simp_all [Content.isDeclaration, Content.isRule]
    rw [children_setChildren, if_neg fun heq => hne heq.1, h.children_eq d hd]

/-- **Where a bound comes from, and which declarations are of no use any more.** On a rule that
holds declarations only, the bounds of a property are found; each of them is what the last
declaration of it alone says; if there is none, what the last declaration of two bounds says, for
the sizes a fluid one with two numbers and for the widths a range with two words; otherwise the
caller's default for the property, if there is one, and the built-in one if not. The ranges and the
declarations of single bounds are of no use any more, each once, whether they say something or not.
Both stay the same when the declarations are put into another order in which those of each name come
as before. -/
theorem resolve_eq (hf : f.WellFormed) (h : f.IsPlainRule rule) (p : Property)
    (given : Property → Option Bounds) :
    ∃ r, f.resolve rule p.name (Property.orBuiltin given) = .ok r ∧
      (∀ bound, r.bounds.get bound =
        (p.declared? (f.valuesIn rule) bound).getD (((given p).getD p.builtin).get bound)) ∧
      r.spent = f.childrenNamed rule p.range ++
        (Bound.all.flatMap fun bound => f.childrenNamed rule (p.longhand bound)) ∧
      r.spent.Nodup ∧
      ∀ ks : List NodeId, ks.Perm (f.children rule) →
        (∀ name, ks.filter (fun d => (f.content d).prop == name) = f.childrenNamed rule name) →
        (f.setChildren rule ks).resolve rule p.name (Property.orBuiltin given) = .ok r := by
  have hresolve : ∀ g : Forest, g.resolve rule p.name (Property.orBuiltin given) =
      .ok (Declared.resolve p (Property.orBuiltin given p) (g.declared rule)) := by
    intro g
    rw [Forest.resolve, Property.ofName?_name]
  have hspent : (Declared.resolve p (Property.orBuiltin given p) (f.declared rule)).spent =
      f.childrenNamed rule p.range ++
        (Bound.all.flatMap fun bound => f.childrenNamed rule (p.longhand bound)) := by
    simpa [Declared.resolve, Declared.spentOn] using h.map_key_spentOn hf p []
  refine ⟨_, hresolve f, fun bound => ?_, hspent, ?_, fun ks hks hnames => ?_⟩
  · rw [Declared.resolve, Declared.get_boundsOf, h.values_declared hf, Property.orBuiltin]
  · have hflat : f.childrenNamed rule p.range ++
        (Bound.all.flatMap fun bound => f.childrenNamed rule (p.longhand bound)) =
        p.settings.flatMap (f.childrenNamed rule) := by
      rw [Property.settings, List.flatMap_cons, List.flatMap_map]
    rw [hspent, hflat]
    exact hf.nodup_flatMap_childrenNamed p.nodup_settings rule
  · rw [hresolve]
    refine congrArg Except.ok (Declared.resolve_congr p _ fun name => ?_)
    rw [(h.setChildren_perm hks).named_declared (hf.setChildren_perm hks), h.named_declared hf,
      childrenNamed, children_setChildren, if_pos ⟨rfl, h.lt_size⟩]
    simp only [content_setChildren, hnames]
    refine List.map_congr_left fun d _ => ?_
    rw [asDeclared, content_setChildren, asDeclared]

/-- A rule in which all layers are there, with a fluid declaration that gives one number only and a
range that gives one word only behind better ones. -/
def layeredSizes : Sheet :=
  ⟨[.rule ".a" none [.declaration "upper-font-range" " 1000px " none,
      .declaration "font-size" "fluid 10px 20px" none, .declaration "font-range" "400px 900px" none,
      .declaration "min-font-size" "11px" none, .declaration "font-size" "fluid 14px" none,
      .declaration "font-range" "300px" none, .declaration "min-font-size" "12px" none]],
    none, none⟩

/-- Each bound comes from another layer, and the declarations may be sorted by their names. -/
theorem resolve_eq_layeredSizes :
    ∃ f r, f = (layeredSizes.store .empty).2 ∧ f.WellFormed ∧ f.IsPlainRule 7 ∧
      f.resolve 7 "font-size" Property.builtin = .ok r ∧
      r.bounds = ⟨"12px", "20px", "400px", "1000px"⟩ ∧ r.spent = [2, 5, 3, 6, 0] ∧
      (f.setChildren 7 [2, 5, 1, 4, 3, 6, 0]).resolve 7 "font-size" Property.builtin = .ok r := by
  obtain ⟨hf, hholds⟩ := Sheet.store_ok wellFormed_empty layeredSizes
  have hrules := hholds.rulesHoldDeclarations hf (by decide)
  have hplain : (layeredSizes.store .empty).2.IsPlainRule 7 :=
    hrules.isPlainRule hf (by decide)
  obtain ⟨⟨⟨a, b, c, d⟩, spent⟩, hresolve, hbounds, hspent, -, hperm⟩ :=
    resolve_eq hf hplain .fontSize fun _ => none
  have ha : a = "12px" := (hbounds .minSize).trans (by decide +kernel)
  have hb : b = "20px" := (hbounds .maxSize).trans (by decide +kernel)
  have hc : c = "400px" := (hbounds .minWidth).trans (by decide +kernel)
  have hd : d = "1000px" := (hbounds .maxWidth).trans (by decide +kernel)
  refine ⟨_, _, rfl, hf, hplain, hresolve, by rw [ha, hb, hc, hd], hspent.trans (by decide), ?_⟩
  refine hperm [2, 5, 1, 4, 3, 6, 0] (by decide) fun name => ?_
  have hnames : ∀ name ∈ Property.fontSize.name :: Property.fontSize.settings,
      [2, 5, 1, 4, 3, 6, 0].filter
          (fun d => ((layeredSizes.store .empty).2.content d).prop == name) =
        (layeredSizes.store .empty).2.childrenNamed 7 name := by
    decide
  by_cases hname : name ∈ Property.fontSize.name :: Property.fontSize.settings
  · exact hnames name hname
  · -- no declaration has any other name
    have hother : ∀ d ∈ [0, 1, 2, 3, 4, 5, 6],
        ((layeredSizes.store .empty).2.content d).prop ∈
          Property.fontSize.name :: Property.fontSize.settings := by
      decide
    have hnil : ∀ ks : List NodeId, (∀ d ∈ ks, d ∈ [0, 1, 2, 3, 4, 5, 6]) →
        ks.filter (fun d => ((layeredSizes.store .empty).2.content d).prop == name) = [] := by
      intro ks hks
      refine List.filter_eq_nil_iff.2 fun d hd heq => hname ?_
      rw [← beq_iff_eq.1 heq]
      exact hother d (hks d hd)
    rw [childrenNamed, hnil _ (by decide), hnil _ (by decide)]

end Forest

end FluidCss
