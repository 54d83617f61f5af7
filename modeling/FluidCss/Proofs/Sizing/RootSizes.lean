import FluidCss.Proofs.Sizing.Precedence
import FluidCss.Proofs.Sizing.Refinement
import FluidCss.Proofs.Sizing.Refusals

set_option autoImplicit false

/-! # What one rule has to do with another

A plan goes through the rules of a sheet with the root font size in its hand, and reports on the
way. What it makes of a rule can be said without this order of events: the root font size that holds
for a rule is the last one that rules at or before it give (`Forest.rootSizeAt`), and the warnings
are those of each fluid size alone, one after the other. So rules have nothing to do with each
other, apart from those that give a root font size (`Run.plan_rewrites`). -/

namespace FluidCss

open Text

/-! ## A fluid size alone -/

namespace Bounds

/-- The bounds with their widths as multiples of the root font size, where they are needed so. There
are none if the number of the root font size is zero. -/
def scaled? (b : Bounds) (rootFontSize : String) : Option Bounds :=
  if b.convertsWidths then
    match pxToRem? b.minWidth rootFontSize, pxToRem? b.maxWidth rootFontSize with
    | some lower, some upper => some (b.withWidths (lower, upper))
    | _, _ => none
  else some b

/-- What there is to warn of where the ends of a growth are given in different units. -/
def endComplaints (b : Bounds) : List String :=
  if LengthUnit.of? b.minSize ≠ LengthUnit.of? b.maxSize ∨
      LengthUnit.of? b.minWidth ≠ LengthUnit.of? b.maxWidth then
    ["min/max unit types must match"]
  else []

/-- What there is to warn of where the widths are in no unit that goes with the sizes. -/
def widthComplaints (b : Bounds) : List String :=
  if b.convertsWidths ∨ LengthUnit.of? b.minSize = LengthUnit.of? b.minWidth ∨
      (LengthUnit.of? b.minSize = some .rem ∧ LengthUnit.of? b.minWidth = some .em) then []
  else ["this combination of units is not supported"]

end Bounds

namespace Interpolation

variable {site : Site} {prop size : String} {b scaled : Bounds} {i : Interpolation}
  {r r' : Report}

theorem reconcile_eq_ok_iff :
    reconcile site b (LengthUnit.of? b.minSize) (LengthUnit.of? b.minWidth) size r =
        .ok scaled r' ↔
      b.scaled? size = some scaled ∧
        r' = ⟨r.warnings ++ b.widthComplaints.map site.warning, r.events⟩ := by
  unfold reconcile Bounds.scaled? Bounds.widthComplaints
  by_cases hconverts : b.convertsWidths = true
  · rw [if_pos (b.convertsWidths_iff.1 hconverts), if_pos hconverts, if_pos (.inl hconverts)]
    have hfail : (throw Failure.divisionByZero : Reporting Bounds) r = .ok scaled r' ↔
        none = some scaled ∧ r' = ⟨r.warnings, r.events⟩ :=
      iff_of_false nofun fun h => nomatch h.1
    rw [List.map_nil, List.append_nil]
    cases pxToRem? b.minWidth size with
    | none => exact hfail
    | some lower =>
      cases pxToRem? b.maxWidth size with
      | none => exact hfail
      | some upper =>
        rw [Option.some.injEq]
        exact pure_eq_ok_iff.trans (and_congr_right fun _ => eq_comm)
  · rw [if_neg (mt b.convertsWidths_iff.2 hconverts), if_neg hconverts, Option.some.injEq]
    by_cases hfit : LengthUnit.of? b.minSize = LengthUnit.of? b.minWidth ∨
        (LengthUnit.of? b.minSize = some .rem ∧ LengthUnit.of? b.minWidth = some .em)
    · rw [if_pos hfit, if_pos (.inr hfit), pure_eq_ok_iff, List.map_nil, List.append_nil,
        eq_comm (a := r)]
    · rw [if_neg hfit, if_neg (not_or.2 ⟨hconverts, hfit⟩)]
      change EStateM.Result.ok b _ = .ok scaled r' ↔ _
      rw [EStateM.Result.ok.injEq]
      exact and_congr_right fun _ => eq_comm

/-- **What is made of bounds**, whatever has been reported before. -/
theorem build_eq_ok_iff :
    build site prop b size r = .ok i r' ↔
      LengthUnit.of? b.minSize ≠ none ∧
      (∃ scaled, b.scaled? size = some scaled ∧
        i = ⟨prop, b, scaled, site.selector, site.source⟩) ∧
      r' = ⟨r.warnings ++ (b.endComplaints ++ b.widthComplaints).map site.warning, r.events⟩ := by
  unfold build
  dsimp only
  by_cases hunit : LengthUnit.of? b.minSize = none
  · rw [if_pos hunit]
    exact iff_of_false nofun fun h => h.1 hunit
  · have hends : ∀ t : Report, (if LengthUnit.of? b.minSize ≠ LengthUnit.of? b.maxSize ∨
          LengthUnit.of? b.minWidth ≠ LengthUnit.of? b.maxWidth then
          ∃ a, Reporting.warn (site.warning "min/max unit types must match") r = .ok a t
        else t = r) ↔ t = ⟨r.warnings ++ b.endComplaints.map site.warning, r.events⟩ := by
      intro t
      unfold Bounds.endComplaints
      split
      · change (∃ a, EStateM.Result.ok () _ = .ok a t) ↔ _
        simp [eq_comm]
      · simp
    rw [if_neg hunit, and_iff_right hunit, ite_bind_eq_ok_iff]
    simp only [hends, exists_eq_left, bind_eq_ok_iff, reconcile_eq_ok_iff, pure_eq_ok_iff]
    constructor
    · rintro ⟨scaled, _, ⟨hscaled, rfl⟩, rfl, rfl⟩
      exact ⟨⟨scaled, hscaled, rfl⟩, by rw [List.map_append, List.append_assoc]⟩
    · rintro ⟨⟨scaled, hscaled, rfl⟩, rfl⟩
      exact ⟨scaled, _, ⟨hscaled, rfl⟩, rfl, by rw [List.map_append, List.append_assoc]⟩

end Interpolation

namespace FluidSize

/-- What there is to warn of in a fluid size. -/
def warnings (x : FluidSize) : List Diagnostic :=
  (x.bounds.endComplaints ++ x.bounds.widthComplaints).map x.site.warning

/-- A fluid size is made in the same way whatever has been reported before. -/
theorem build_alone {x : FluidSize} {i : Interpolation} {r r' : Report} (h : x.build r = .ok i r') :
    x.build .empty = .ok i ⟨x.warnings, []⟩ ∧ r'.warnings = r.warnings ++ x.warnings := by
  obtain ⟨hunit, hscaled, rfl⟩ := Interpolation.build_eq_ok_iff.1 h
  exact ⟨Interpolation.build_eq_ok_iff.2 ⟨hunit, hscaled, rfl⟩, rfl⟩

end FluidSize

/-- What holds of each result holds of all results of a sequence of steps. -/
theorem forall_of_mapM {ε σ α β : Type} {step : α → EStateM ε σ β} {P : β → Prop}
    (hstep : ∀ a s b t, step a s = .ok b t → P b) {as : List α} {bs : List β} {s t : σ}
    (h : as.mapM step s = .ok bs t) : ∀ b ∈ bs, P b := by
  induction as generalizing bs s with
  | nil =>
    obtain ⟨rfl, -⟩ := pure_eq_ok_iff.1 h
    simp
  | cons a as ih =>
    rw [List.mapM_cons] at h
    obtain ⟨b, s₁, hfirst, h⟩ := bind_eq_ok_iff.1 h
    obtain ⟨bs', s₂, hrest, h⟩ := bind_eq_ok_iff.1 h
    obtain ⟨rfl, rfl⟩ := pure_eq_ok_iff.1 h
    exact List.forall_mem_cons.2 ⟨hstep a s b s₁ hfirst, ih hrest⟩

theorem map_eq_of_forall₂ {α β γ : Type} {R : α → β → Prop} {φ : α → γ} {ψ : β → γ}
    {xs : List α} {ys : List β} (h : List.Forall₂ R xs ys) (hR : ∀ x y, R x y → φ x = ψ y) :
    xs.map φ = ys.map ψ := by
  rw [← List.forall₂_eq_eq_eq, List.forall₂_map_left_iff, List.forall₂_map_right_iff]
  exact h.imp hR

theorem flatMap_eq_of_forall₂ {α β γ : Type} {R : α → β → Prop} {φ : α → List γ} {ψ : β → List γ}
    {xs : List α} {ys : List β} (h : List.Forall₂ R xs ys) (hR : ∀ x y, R x y → φ x = ψ y) :
    xs.flatMap φ = ys.flatMap ψ := by
  rw [List.flatMap_def, List.flatMap_def, map_eq_of_forall₂ h hR]

/-! ## The rules of a plan -/

namespace Forest

variable {f g : Forest} {options : Options} {size start last : String} {rule : NodeId}
  {rules : List NodeId} {r r' : Report}

/-- A fluid size that a rule asks for. -/
def fluidSize (f : Forest) (options : Options) (size : String) (rule : NodeId) (p : Property) :
    FluidSize :=
  ⟨f.site rule, p, Declared.boundsOf p (options.defaults p) (f.declared rule), size⟩

/-- The fluid sizes that a rule asks for. -/
def fluidSizes (f : Forest) (options : Options) (size : String) (rule : NodeId) : List FluidSize :=
  (Declared.expanding (f.declared rule)).map fun entry => f.fluidSize options size rule entry.1

theorem interpolationsOf_alone
    {entries : List (Property × Declared NodeId × List (Declared NodeId))}
    {outputs : List Interpolation}
    (h : f.interpolationsOf options size rule entries r = .ok outputs r') :
    List.Forall₂ (fun i x => x.build .empty = .ok i ⟨x.warnings, []⟩) outputs
        (entries.map fun entry => f.fluidSize options size rule entry.1) ∧
      r'.warnings = r.warnings ++
        (entries.map fun entry => f.fluidSize options size rule entry.1).flatMap
          FluidSize.warnings := by
  induction entries generalizing outputs r with
  | nil =>
    obtain ⟨rfl, rfl⟩ := pure_eq_ok_iff.1 h
    exact ⟨.nil, (List.append_nil _).symm⟩
  | cons entry entries ih =>
    rw [interpolationsOf_cons] at h
    obtain ⟨i, r₁, hfirst, h⟩ := bind_eq_ok_iff.1 h
    obtain ⟨rest, r₂, hrest, h⟩ := bind_eq_ok_iff.1 h
    obtain ⟨rfl, rfl⟩ := pure_eq_ok_iff.1 h
    obtain ⟨_, r₀, hlog, hbuild⟩ := bind_eq_ok_iff.1 hfirst
    obtain ⟨halone, hwarnings⟩ :=
      FluidSize.build_alone (x := f.fluidSize options size rule entry.1) hbuild
    obtain ⟨hall, hwarnings'⟩ := ih hrest
    have hlogged : r₀.warnings = r.warnings := by
      obtain ⟨-, rfl⟩ := EStateM.Result.ok.inj hlog
      rfl
    refine ⟨.cons halone hall, ?_⟩
    rw [hwarnings', hwarnings, hlogged, List.map_cons, List.flatMap_cons, List.append_assoc]

/-- The root font sizes that a rule gives, if it is a rule for the root element. -/
def pixelSizes (f : Forest) (rule : NodeId) : List String :=
  if isRootSelector (f.content rule).selector then
    (f.valuesIn rule Property.fontSize.name).filter fun value =>
      contains value "px" && !contains value "fluid"
  else []

/-- The root font size that holds for one of several rules: the last one that rules up to it give,
or the one before all rules. -/
def rootSizeIn (f : Forest) (start : String) (rules : List NodeId) (rule : NodeId) : String :=
  ((rules.take (rules.idxOf rule + 1)).flatMap f.pixelSizes).getLast?.getD start

/-- A value that is overwritten by the elements with a property is the last of them in the end. -/
theorem foldl_eq_getLast?_filter {α : Type} (q : α → Bool) (xs : List α) (a : α) :
    xs.foldl (fun b x => if q x then x else b) a = (xs.filter q).getLast?.getD a := by
  have hstep : ∀ b x : α, (if q x then x else b) = (Option.guard q x).elim b fun y => y := by
    intro b x
    rw [Option.guard]
    split <;> rfl
  rw [foldl_eq_lastGiven (fun _ x => x) hstep (fun _ _ _ => rfl), lastGiven,
    List.filterMap_eq_filter]
  cases (xs.filter q).getLast? <;> rfl

theorem IsPlainRule.rootFontSizeAfter_eq (h : f.IsPlainRule rule) (hf : f.WellFormed)
    (current : String) :
    rootFontSizeAfter (f.content rule).selector (f.declared rule) current =
      (f.pixelSizes rule).getLast?.getD current := by
  rw [rootFontSizeAfter, pixelSizes]
  split
  · rw [← h.values_declared hf, Declared.values, ← foldl_eq_getLast?_filter, List.foldl_map]
    rfl
  · rfl

theorem rootSizeIn_append {k : NodeId} (hk : k ∈ rules) (start : String) (rules' : List NodeId) :
    f.rootSizeIn start (rules ++ rules') k = f.rootSizeIn start rules k := by
  rw [rootSizeIn, rootSizeIn, List.idxOf_append_of_mem hk,
    List.take_append_of_le_length (Nat.succ_le_of_lt (List.idxOf_lt_length_of_mem hk))]

/-- For the last of several rules, all of them count. -/
theorem rootSizeIn_concat (h : rule ∉ rules) (start : String) :
    f.rootSizeIn start (rules ++ [rule]) rule =
      (f.pixelSizes rule).getLast?.getD ((rules.flatMap f.pixelSizes).getLast?.getD start) := by
  rw [rootSizeIn, List.idxOf_append_of_notMem h, List.idxOf_cons_self, Nat.add_zero,
    List.take_of_length_le (by simp), List.flatMap_append, List.flatMap_singleton,
    List.getLast?_append, Option.getD_or]

/-- Whether an expansion is made for a fluid size of its rule, where the root font size that holds
for each rule is given. -/
structure IsMadeFor (f : Forest) (options : Options) (sizeOf : NodeId → String) (e : Expansion)
    (x : FluidSize) : Prop where
  eq : x = f.fluidSize options (sizeOf e.rule) e.rule x.property
  alone : x.build .empty = .ok e.output ⟨x.warnings, []⟩

end Forest

namespace PlanPart

open Forest

variable {f : Forest} {options : Options} {size start last : String} {rule : NodeId}
  {rules : List NodeId} {es : List Expansion} {r r' : Report}

/-- The expansions of a part belong to its rules. -/
theorem rule_mem (h : PlanPart f options rules es size last r r') {e : Expansion} (he : e ∈ es) :
    e.rule ∈ rules := by
  have hmem : e.key ∈ es.map Expansion.key := List.mem_map_of_mem he
  rw [h.keys_eq] at hmem
  obtain ⟨k, hk, hkey⟩ := List.mem_flatMap.1 hmem
  obtain ⟨entry, -, hentry⟩ := List.mem_map.1 hkey
  rwa [show e.rule = k from (congrArg (·.1) hentry).symm]

/-- A part of a plan for one rule. -/
theorem made_singleton (h : PlanPart f options [rule] es size last r r') (hf : f.WellFormed)
    (hrule : f.IsPlainRule rule) :
    last = (f.pixelSizes rule).getLast?.getD size ∧
      (∀ sizeOf : NodeId → String, sizeOf rule = last →
        List.Forall₂ (IsMadeFor f options sizeOf) es (f.fluidSizes options last rule)) ∧
      r'.warnings = r.warnings ++ (f.fluidSizes options last rule).flatMap FluidSize.warnings := by
  obtain ⟨hlast, r₁, hlog, hrun⟩ := interpolations_singleton_ok h.run_eq
  obtain ⟨hall, hwarnings⟩ := interpolationsOf_alone hrun
  have hlogged : r₁.warnings = r.warnings := by
    split at hlog
    · obtain ⟨_, hlog⟩ := hlog
      obtain ⟨-, rfl⟩ := EStateM.Result.ok.inj hlog
      rfl
    · rw [hlog]
  refine ⟨hlast.trans (hrule.rootFontSizeAfter_eq hf size), fun sizeOf hsize => ?_, ?_⟩
  · rw [List.forall₂_map_left_iff, List.forall₂_map_right_iff] at hall
    rw [fluidSizes, List.forall₂_map_right_iff]
    refine ((List.forall₂_and_left _ _).2 ⟨h.rule_eq, hall⟩).imp fun e entry he => ⟨?_, he.2⟩
    rw [he.1, hsize]
    rfl
  · rw [hwarnings, hlogged, fluidSizes]

/-- **What a plan makes of several rules**, each with the root font size that holds for it. -/
theorem made (h : PlanPart f options rules es start last r r') (hf : f.WellFormed)
    (hrules : ∀ rule ∈ rules, f.IsPlainRule rule) (hnodup : rules.Nodup) :
    last = (rules.flatMap f.pixelSizes).getLast?.getD start ∧
      List.Forall₂ (IsMadeFor f options (f.rootSizeIn start rules)) es
        (rules.flatMap fun rule => f.fluidSizes options (f.rootSizeIn start rules rule) rule) ∧
      r'.warnings = r.warnings ++ (rules.flatMap fun rule =>
        f.fluidSizes options (f.rootSizeIn start rules rule) rule).flatMap FluidSize.warnings := by
  induction rules using List.reverseRecOn generalizing es last r' with
  | nil =>
    obtain ⟨rfl, rfl, rfl⟩ := h.of_nil
    exact ⟨rfl, .nil, (List.append_nil _).symm⟩
  | append_singleton rules rule ih =>
    obtain ⟨hnodup, -, hnot⟩ := List.nodup_append.1 hnodup
    have hrule : rule ∉ rules := fun hmem => hnot rule hmem rule (by simp) rfl
    obtain ⟨here, further, mid, r₁, rfl, hhere, hfurther⟩ := h.split
    obtain ⟨hmid, hmade, hwarnings⟩ := ih hhere (fun k hk => hrules k (by simp [hk])) hnodup
    obtain ⟨hlast, hmade', hwarnings'⟩ :=
      hfurther.made_singleton hf (hrules rule (by simp))
    have hsize : f.rootSizeIn start (rules ++ [rule]) rule = last := by
      rw [rootSizeIn_concat hrule, ← hmid, hlast]
    -- a rule behind the others does not change the size that holds for them
    have hsizes : (rules.flatMap fun k =>
          f.fluidSizes options (f.rootSizeIn start (rules ++ [rule]) k) k) =
        rules.flatMap fun k => f.fluidSizes options (f.rootSizeIn start rules k) k :=
      List.flatMap_congr fun k hk => by rw [rootSizeIn_append hk]
    rw [List.flatMap_append, List.flatMap_append, List.flatMap_singleton, List.flatMap_singleton,
      hsize, hsizes]
    refine ⟨?_, List.rel_append ?_ (hmade' _ hsize), ?_⟩
    · rw [hlast, hmid, List.getLast?_append, Option.getD_or]
    · refine ((List.forall₂_and_left _ _).2 ⟨fun e => hhere.rule_mem, hmade⟩).imp ?_
      rintro e x ⟨hmem, hx⟩
      exact ⟨by rw [rootSizeIn_append hmem]; exact hx.eq, hx.alone⟩
    · rw [hwarnings', hwarnings, List.flatMap_append, List.append_assoc]

/-- What a plan makes of one of its rules. -/
theorem filter_made (h : PlanPart f options rules es start last r r') (hf : f.WellFormed)
    (hrules : ∀ rule ∈ rules, f.IsPlainRule rule) (hnodup : rules.Nodup) (hrule : rule ∈ rules) :
    List.Forall₂ (IsMadeFor f options (f.rootSizeIn start rules))
      (es.filter fun e => e.rule == rule)
      (f.fluidSizes options (f.rootSizeIn start rules rule) rule) := by
  obtain ⟨before, behind, rfl⟩ := List.append_of_mem hrule
  obtain ⟨hbefore, hbehind⟩ := not_mem_of_nodup_middle hnodup
  obtain ⟨first, others, size, r₁, rfl, hfirst, hothers⟩ := h.split
  rw [← List.singleton_append] at hothers
  obtain ⟨here, further, mid, r₂, rfl, hhere, hfurther⟩ := hothers.split
  have hnil : ∀ {ks es size last r r'}, PlanPart f options ks es size last r r' → rule ∉ ks →
      es.filter (fun e => e.rule == rule) = [] := fun hpart hks =>
    List.filter_eq_nil_iff.2 fun e he heq => hks (beq_iff_eq.1 heq ▸ hpart.rule_mem he)
  have hall : here.filter (fun e => e.rule == rule) = here :=
    List.filter_eq_self.2 fun e he => beq_iff_eq.2 (hhere.rule_eq e he)
  rw [List.filter_append, List.filter_append, hnil hfirst hbefore, hnil hfurther hbehind, hall,
    List.nil_append, List.append_nil]
  obtain ⟨hsize, -⟩ := hfirst.made hf (fun k hk => hrules k (by simp [hk]))
    (List.nodup_append.1 hnodup).1
  obtain ⟨hmid, hmade, -⟩ := hhere.made_singleton hf (hrules rule hrule)
  have hrootSize : f.rootSizeIn start (before ++ rule :: behind) rule = mid := by
    rw [List.append_cons, rootSizeIn_append (by simp), rootSizeIn_concat hbefore, hmid, hsize]
  rw [hrootSize]
  exact hmade _ hrootSize

end PlanPart

namespace Run

variable {options : Options} {size : String} {rule root : NodeId} {s t : Session}
  {es : List Expansion}

/-- An expansion has the bounds of its interpolation. -/
theorem planDeclaration_bounds {p : Property} {d : Declared NodeId}
    {overridden : List (Declared NodeId)} {e : Expansion}
    (h : planDeclaration options size rule p d overridden s = .ok e t) :
    e.bounds = e.output.bounds := by
  rw [planDeclaration, get_bind] at h
  obtain ⟨_, s₁, -, h⟩ := bind_eq_ok_iff.1 h
  obtain ⟨i, s₂, hbuild, h⟩ := bind_eq_ok_iff.1 h
  obtain ⟨placed, s₃, -, h⟩ := bind_eq_ok_iff.1 h
  obtain ⟨rfl, -⟩ := pure_eq_ok_iff.1 h
  obtain ⟨r, hbuild, -⟩ := ofReporting_eq_ok_iff.1 hbuild
  obtain ⟨scaled, r₁, -, rfl⟩ := Interpolation.build_ok hbuild
  rfl

theorem planRules_bounds {rules : List NodeId} (h : planRules options size rules s = .ok es t) :
    ∀ e ∈ es, e.bounds = e.output.bounds := by
  induction rules generalizing size s es with
  | nil =>
    obtain ⟨rfl, -⟩ := pure_eq_ok_iff.1 h
    simp
  | cons rule rules ih =>
    rw [planRules, get_bind] at h
    dsimp only at h
    obtain ⟨s₁, -, h⟩ := ite_bind_eq_ok_iff.1 h
    obtain ⟨here, s₂, hhere, h⟩ := bind_eq_ok_iff.1 h
    obtain ⟨further, s₃, hfurther, h⟩ := bind_eq_ok_iff.1 h
    obtain ⟨rfl, rfl⟩ := pure_eq_ok_iff.1 h
    rw [planRule, get_bind] at hhere
    exact List.forall_mem_append.2
      ⟨forall_of_mapM (fun entry _ _ _ => planDeclaration_bounds) hhere, ih hfurther⟩

end Run

/-! ## Two plans -/

/-- What a caller sees of an expansion, apart from where its rule stands in a text. -/
structure Rewrite where
  prop : String
  bounds : Bounds
  expression : String
  /-- The texts of the warnings, each with the selector of the rule. -/
  warnings : List (String × Option String)
deriving DecidableEq, Repr

/-- What a caller sees of the expansion of a fluid size. -/
def FluidSize.rewrite (x : FluidSize) : Rewrite :=
  ⟨x.property.name, x.bounds, ((x.bounds.scaled? x.rootFontSize).getD x.bounds).expression,
    (x.bounds.endComplaints ++ x.bounds.widthComplaints).map fun text => (text, x.site.selector)⟩

namespace Forest

variable {f g : Forest} {options : Options} {root root' rule rule' : NodeId} {e : Expansion}

/-- The root font size that holds for a rule below a node: the last one that the rules up to it
give, or the caller's. -/
def rootSizeAt (f : Forest) (options : Options) (root rule : NodeId) : String :=
  f.rootSizeIn options.rootFontSize (f.rulesBelow root) rule

/-- What is made of an expansion alone, without anything reported before. -/
def alone (f : Forest) (options : Options) (root : NodeId) (e : Expansion) :
    EStateM.Result Failure Report Interpolation :=
  Interpolation.build (f.site e.rule) e.output.prop e.bounds (f.rootSizeAt options root e.rule)
    .empty

/-- What a caller sees of an expansion. -/
def rewrite (f : Forest) (options : Options) (root : NodeId) (e : Expansion) : Rewrite :=
  ⟨e.output.prop, e.bounds, e.output.expression,
    (finalState (f.alone options root e)).warnings.map fun w => (w.text, w.selector)⟩

/-- The names and values of the declarations of a rule, in order. -/
def said (f : Forest) (rule : NodeId) : List (String × String) :=
  (f.children rule).map fun d => ((f.content d).prop, (f.content d).value)

/-- Whether the rules below two nodes have the same selectors, and differ in the declarations of
such rules only that are not for the root element. -/
def AlikeAtRoot (f g : Forest) (root root' : NodeId) : Prop :=
  List.Forall₂ (fun rule rule' => (f.content rule).selector = (g.content rule').selector ∧
    (isRootSelector (f.content rule).selector = true → f.said rule = g.said rule'))
    (f.rulesBelow root) (g.rulesBelow root')

/-- An expansion is made of its bounds with the root font size that holds for its rule. -/
theorem IsMadeFor.alone_eq {x : FluidSize}
    (h : IsMadeFor f options (f.rootSizeAt options root) e x)
    (hbounds : e.bounds = e.output.bounds) :
    x.bounds = e.bounds ∧ x.property.name = e.output.prop ∧
      f.alone options root e = .ok e.output ⟨x.warnings, []⟩ := by
  obtain ⟨-, ⟨scaled, -, houtput⟩, -⟩ := Interpolation.build_eq_ok_iff.1 h.alone
  have hb : x.bounds = e.bounds := by rw [hbounds, houtput]
  have hp : x.property.name = e.output.prop := by rw [houtput]
  refine ⟨hb, hp, ?_⟩
  have hsite : x.site = f.site e.rule := congrArg FluidSize.site h.eq
  have hsize : x.rootFontSize = f.rootSizeAt options root e.rule :=
    congrArg FluidSize.rootFontSize h.eq
  rw [Forest.alone, ← hb, ← hp, ← hsite, ← hsize]
  exact h.alone

theorem IsMadeFor.rewrite_eq {x : FluidSize}
    (h : IsMadeFor f options (f.rootSizeAt options root) e x)
    (hbounds : e.bounds = e.output.bounds) :
    f.rewrite options root e = x.rewrite := by
  obtain ⟨hb, hp, halone⟩ := h.alone_eq hbounds
  obtain ⟨-, ⟨scaled, hscaled, houtput⟩, -⟩ := Interpolation.build_eq_ok_iff.1 h.alone
  have hexpression : e.output.expression =
      ((x.bounds.scaled? x.rootFontSize).getD x.bounds).expression := by
    rw [hscaled, houtput]
    rfl
  rw [rewrite, FluidSize.rewrite, halone, ← hb, ← hp, hexpression, finalState, FluidSize.warnings,
    List.map_map]
  rfl

theorem valuesIn_eq (f : Forest) (rule : NodeId) (name : String) :
    f.valuesIn rule name = ((f.said rule).filter fun s => s.1 == name).map (·.2) := by
  rw [valuesIn, childrenNamed, said, List.filter_map, List.map_map]
  rfl

theorem IsPlainRule.map_forget_declared (h : f.IsPlainRule rule) (hf : f.WellFormed) :
    (f.declared rule).map Declared.forget =
      (f.said rule).map fun s => (⟨(), s.1, s.2⟩ : Declared Unit) := by
  rw [h.declared_eq hf, said, List.map_map, List.map_map]
  rfl

/-- What a caller sees of the fluid sizes of a rule depends on its selector and on what its
declarations say. -/
theorem map_rewrite_fluidSizes (f : Forest) (options : Options) (size : String) (rule : NodeId) :
    (f.fluidSizes options size rule).map FluidSize.rewrite =
      (Declared.expanding ((f.declared rule).map Declared.forget)).map fun entry =>
        FluidSize.rewrite ⟨⟨(f.content rule).selector, none, none, none⟩, entry.1,
          Declared.boundsOf entry.1 (options.defaults entry.1)
            ((f.declared rule).map Declared.forget), size⟩ := by
  have hproperties : (Declared.expanding ((f.declared rule).map Declared.forget)).map (·.1) =
      (Declared.expanding (f.declared rule)).map (·.1) :=
    Declared.map_fst_expandingFrom_map_forget [] [] _
  have hmap := congrArg (List.map fun p : Property =>
    FluidSize.rewrite ⟨⟨(f.content rule).selector, none, none, none⟩, p,
      Declared.boundsOf p (options.defaults p) (f.declared rule), size⟩) hproperties
  rw [List.map_map, List.map_map] at hmap
  simp only [Declared.boundsOf_map_forget]
  rw [fluidSizes, List.map_map]
  exact hmap.symm

namespace AlikeAtRoot

variable (h : f.AlikeAtRoot g root root')

include h

/-- The same root font sizes hold for rules that correspond. -/
theorem rootSizeAt_eq (hf : f.WellFormed) (hg : g.WellFormed)
    (hpair : (rule, rule') ∈ (f.rulesBelow root).zip (g.rulesBelow root')) :
    f.rootSizeAt options root rule = g.rootSizeAt options root' rule' := by
  obtain ⟨i, hi, hget⟩ := List.mem_iff_getElem.1 hpair
  rw [List.getElem_zip] at hget
  obtain ⟨rfl, rfl⟩ := Prod.mk.inj hget
  have hsizes : ∀ rule rule', ((f.content rule).selector = (g.content rule').selector ∧
      (isRootSelector (f.content rule).selector = true → f.said rule = g.said rule')) →
      f.pixelSizes rule = g.pixelSizes rule' := by
    rintro rule rule' ⟨hselector, hsaid⟩
    rw [pixelSizes, pixelSizes, ← hselector]
    split
    · next hroot => rw [valuesIn_eq, valuesIn_eq, hsaid hroot]
    · rfl
  rw [rootSizeAt, rootSizeAt, rootSizeIn, rootSizeIn, (hf.nodup_rulesBelow root).idxOf_getElem,
    (hg.nodup_rulesBelow root').idxOf_getElem,
    flatMap_eq_of_forall₂ (List.forall₂_take _ h) hsizes]

/-- What a caller sees of the fluid sizes of rules that correspond and say the same. -/
theorem map_rewrite_eq (hf : f.WellFormed) (hg : g.WellFormed)
    (hpair : (rule, rule') ∈ (f.rulesBelow root).zip (g.rulesBelow root'))
    (hrule : f.IsPlainRule rule) (hrule' : g.IsPlainRule rule')
    (hsaid : f.said rule = g.said rule') :
    (f.fluidSizes options (f.rootSizeAt options root rule) rule).map FluidSize.rewrite =
      (g.fluidSizes options (g.rootSizeAt options root' rule') rule').map FluidSize.rewrite := by
  have hselector : (f.content rule).selector = (g.content rule').selector :=
    (List.forall₂_zip h hpair).1
  rw [map_rewrite_fluidSizes, map_rewrite_fluidSizes, h.rootSizeAt_eq hf hg hpair, hselector,
    hrule.map_forget_declared hf, hrule'.map_forget_declared hg, hsaid]

end AlikeAtRoot

end Forest

namespace Run

variable {options : Options} {root : NodeId} {s t : Session} {es : List Expansion}

/-- A plan is a part of itself. -/
theorem planPart_of_plan_ok (hs : s.forest.WellFormed)
    (hrules : s.forest.RulesHoldDeclarations root) (h : plan options root s = .ok es t) :
    ∃ last, PlanPart s.forest options (s.forest.rulesBelow root) es options.rootFontSize last
      s.report t.report := by
  obtain ⟨⟨last, hrun⟩, hplanned⟩ := plan_ok hs hrules h
  exact ⟨last, hrun, hplanned.keys_eq⟩

theorem plan_bounds (h : plan options root s = .ok es t) :
    ∀ e ∈ es, e.bounds = e.output.bounds := by
  rw [plan, get_bind] at h
  exact planRules_bounds h

/-- What a caller sees of the expansions of one rule. -/
theorem map_rewrite_of_plan_ok (hs : s.forest.WellFormed)
    (hrules : s.forest.RulesHoldDeclarations root) (h : plan options root s = .ok es t)
    {rule : NodeId} (hrule : rule ∈ s.forest.rulesBelow root) :
    (es.filter fun e => e.rule == rule).map (s.forest.rewrite options root) =
      (s.forest.fluidSizes options (s.forest.rootSizeAt options root rule) rule).map
        FluidSize.rewrite := by
  obtain ⟨last, hpart⟩ := planPart_of_plan_ok hs hrules h
  have hmade := hpart.filter_made hs (fun k hk => hrules.isPlainRule hs hk)
    (hs.nodup_rulesBelow root) hrule
  have hbounds : ∀ e ∈ es.filter fun e => e.rule == rule, e.bounds = e.output.bounds :=
    fun e he => plan_bounds h e (List.mem_of_mem_filter he)
  refine map_eq_of_forall₂ ((List.forall₂_and_left _ _).2 ⟨hbounds, hmade⟩) ?_
  rintro e x ⟨hbounds, hx⟩
  exact hx.rewrite_eq hbounds

/-- **Rules have nothing to do with each other, apart from root font sizes.** Where the links of a
store agree and the rules below a node hold declarations only, each expansion of a plan that is made
has the bounds that its rule gives, and its expression is that of the bounds, in which the widths
are multiples of the root font size if the smaller size is in `rem` and the smaller width in `px`.
The root font size is the last one that the rules for the root element up to the rule give, or the
caller's. What is made of an expansion, and the warnings, are the same as if nothing else had been
planned before; the warnings of the plan are those of its expansions, in order. So in a plan for
another tree, in which other declarations stand in rules that are not for the root element, a caller
sees the same of the expansions of the rules that say the same. -/
theorem plan_rewrites (hs : s.forest.WellFormed) (hrules : s.forest.RulesHoldDeclarations root)
    (h : plan options root s = .ok es t) :
    (∀ e ∈ es, (∃ p : Property, e.output.prop = p.name ∧
        e.bounds = Declared.boundsOf p (options.defaults p) (s.forest.declared e.rule)) ∧
      (∃ r, s.forest.alone options root e = .ok e.output r) ∧
      (e.bounds.scaled? (s.forest.rootSizeAt options root e.rule)).map Bounds.expression =
        some e.output.expression) ∧
    t.report.warnings = s.report.warnings ++
      es.flatMap (fun e => (finalState (s.forest.alone options root e)).warnings) ∧
    ∀ (s' t' : Session) (root' : NodeId) (es' : List Expansion), s'.forest.WellFormed →
      s'.forest.RulesHoldDeclarations root' → plan options root' s' = .ok es' t' →
      s.forest.AlikeAtRoot s'.forest root root' →
      ∀ rule rule', (rule, rule') ∈ (s.forest.rulesBelow root).zip (s'.forest.rulesBelow root') →
        s.forest.said rule = s'.forest.said rule' →
        (es.filter fun e => e.rule == rule).map (s.forest.rewrite options root) =
          (es'.filter fun e => e.rule == rule').map (s'.forest.rewrite options root') := by
  obtain ⟨last, hpart⟩ := planPart_of_plan_ok hs hrules h
  obtain ⟨-, hmade, hwarnings⟩ := hpart.made hs (fun k hk => hrules.isPlainRule hs hk)
    (hs.nodup_rulesBelow root)
  have hall := (List.forall₂_and_left _ _).2 ⟨plan_bounds h, hmade⟩
  refine ⟨?_, ?_, ?_⟩
  · refine ((List.forall₂_and_left es _).1 (hall.imp fun e x hx => ⟨?_, hx⟩)).1
    obtain ⟨hbounds, hx⟩ := hx
    obtain ⟨hb, hp, halone⟩ := hx.alone_eq hbounds
    obtain ⟨-, ⟨scaled, hscaled, houtput⟩, -⟩ := Interpolation.build_eq_ok_iff.1 halone
    refine ⟨⟨x.property, hp.symm, ?_⟩, ⟨_, halone⟩, ?_⟩
    · rw [← hb]
      exact congrArg FluidSize.bounds hx.eq
    · rw [hscaled, houtput]
      rfl
  · rw [hwarnings]
    congr 1
    refine (flatMap_eq_of_forall₂ hall ?_).symm
    rintro e x ⟨hbounds, hx⟩
    rw [(hx.alone_eq hbounds).2.2, finalState]
  · intro s' t' root' es' hs' hrules' h' halike rule rule' hpair hsaid
    have hrule := (List.of_mem_zip hpair).1
    have hrule' := (List.of_mem_zip hpair).2
    rw [map_rewrite_of_plan_ok hs hrules h hrule, map_rewrite_of_plan_ok hs' hrules' h' hrule',
      halike.map_rewrite_eq hs hs' hpair (hrules.isPlainRule hs hrule)
        (hrules'.isPlainRule hs' hrule') hsaid]

/-- A sheet in which the root font size is set twice, and a rule that is not for the root element
gives a font size between. The rules are `1`, `3`, `5` and `7`, and the top is `9`. -/
def setTwice (value : String) : Sheet :=
  ⟨[.rule " :root " none [.declaration "font-size" "10px" none],
    .rule ".b" none [.declaration "font-size" value none],
    .atBlock "media" "print" none [.rule "html" none [.declaration "font-size" "20px" none],
      .rule ".a" none [.declaration "font-size" "fluid 1rem 2rem" none]]], none, none⟩

/-- In one sheet the rule between gives a font size in pixels, in the other it asks for a fluid
size. -/
theorem plan_rewrites_setTwice :
    ∃ es t es' t',
      plan Options.builtin 9 (setTwice "40px").session.2 = .ok es t ∧
      plan Options.builtin 9 (setTwice "fluid 1em 2rem").session.2 = .ok es' t' ∧
      es.map (·.output.expression) = ["calc(1rem + 1 * ((100vw - 21rem) / 43))"] ∧
      (setTwice "40px").session.2.forest.rootSizeAt Options.builtin 9 7 = "20px" ∧
      es'.map (·.rule) = [3, 7] ∧
      (es.filter fun e => e.rule == 7).map
          ((setTwice "40px").session.2.forest.rewrite Options.builtin 9) =
        (es'.filter fun e => e.rule == 7).map
          ((setTwice "fluid 1em 2rem").session.2.forest.rewrite Options.builtin 9) := by
  obtain ⟨hs, hholds⟩ := (setTwice "40px").session_ok
  obtain ⟨hs', hholds'⟩ := (setTwice "fluid 1em 2rem").session_ok
  have hrules := hholds.rulesHoldDeclarations hs (by decide)
  have hrules' := hholds'.rulesHoldDeclarations hs' (by decide)
  obtain ⟨es, t, hplan, hexpressions⟩ := exists_ok_of_givesResult
    (p := fun es => es.map (·.output.expression) == ["calc(1rem + 1 * ((100vw - 21rem) / 43))"])
    (r := plan Options.builtin 9 (setTwice "40px").session.2) (by decide +kernel)
  obtain ⟨es', t', hplan', hexpanded⟩ := exists_ok_of_givesResult
    (p := fun es => es.map (·.rule) == [3, 7])
    (r := plan Options.builtin 9 (setTwice "fluid 1em 2rem").session.2) (by decide +kernel)
  obtain ⟨-, -, hothers⟩ := plan_rewrites hs hrules hplan
  have halike : (setTwice "40px").session.2.forest.AlikeAtRoot
      (setTwice "fluid 1em 2rem").session.2.forest 9 9 := by
    refine .cons ?_ (.cons ?_ (.cons ?_ (.cons ?_ .nil)))
    all_goals decide
  exact ⟨es, t, es', t', hplan, hplan', by simpa using hexpressions, by decide,
    by simpa using hexpanded,
    hothers _ _ 9 es' hs' hrules' hplan' halike 7 7 (by decide) (by decide)⟩

end Run

end FluidCss
