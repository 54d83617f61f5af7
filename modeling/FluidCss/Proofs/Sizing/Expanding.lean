import FluidCss.Sizing.Expanded
import Mathlib.Data.List.Nodup

set_option autoImplicit false

/-! # Which declarations are expanded

`Declared.expanding` is described twice: by recursion from declaration to declaration
(`expandingFrom_cons`), which the recursion over a tree is compared with, and by what is in it
(`mem_expanding_iff`): the last fluid declaration of each property, with all earlier ones. -/

namespace FluidCss

/-- In a list without duplicates an element stands neither before nor behind itself. -/
theorem not_mem_of_nodup_middle {α : Type} {xs ys : List α} {x : α} (h : (xs ++ x :: ys).Nodup) :
    x ∉ xs ∧ x ∉ ys := by
  rw [List.nodup_middle, List.nodup_cons] at h
  simpa using h.1

namespace Declared

variable {κ : Type}

/-- The property of which a declaration asks for a fluid size, if it does. -/
def fluidProperty? (d : Declared κ) : Option Property :=
  if d.isFluid then Property.ofName? d.prop else none

/-- Whether a declaration asks for a fluid size of a property. -/
def asks (p : Property) (d : Declared κ) : Bool := d.fluidProperty? == some p

theorem asks_iff {p : Property} {d : Declared κ} : d.asks p = true ↔ d.fluidProperty? = some p := by
  rw [asks, beq_iff_eq]

theorem fluidOnes_cons (d : Declared κ) (ds : List (Declared κ)) :
    fluidOnes (d :: ds) =
      match d.fluidProperty? with
      | some p => (p, d) :: fluidOnes ds
      | none => fluidOnes ds := by
  unfold fluidOnes fluidProperty?
  rw [List.filterMap_cons]
  cases hp : Property.ofName? d.prop <;> cases hf : d.isFluid <;> simp

theorem fluidOnes_append (ds ds' : List (Declared κ)) :
    fluidOnes (ds ++ ds') = fluidOnes ds ++ fluidOnes ds' :=
  List.filterMap_append

theorem any_fluidOnes (p : Property) (ds : List (Declared κ)) :
    ((fluidOnes ds).any fun other => other.1 == p) = ds.any (asks p) := by
  induction ds with
  | nil => rfl
  | cons d ds ih =>
    rw [fluidOnes_cons, List.any_cons, ← ih, asks]
    cases hd : d.fluidProperty? <;> simp

theorem filter_fluidOnes (p : Property) (ds : List (Declared κ)) :
    ((fluidOnes ds).filter fun other => other.1 == p).map (·.2) = ds.filter (asks p) := by
  induction ds with
  | nil => rfl
  | cons d ds ih =>
    rw [fluidOnes_cons, List.filter_cons, ← ih, asks]
    cases hd : d.fluidProperty? with
    | none => simp
    | some q =>
      rw [List.filter_cons]
      by_cases hq : q = p <;> simp [hq]

/-- Of the declarations behind `before`, those that are expanded. -/
def expandingFrom (before ds : List (Declared κ)) :
    List (Property × Declared κ × List (Declared κ)) :=
  lastOnesFrom (fluidOnes before) (fluidOnes ds)

theorem expanding_eq (ds : List (Declared κ)) : expanding ds = expandingFrom [] ds := rfl

theorem expandingFrom_nil (before : List (Declared κ)) : expandingFrom before [] = [] := rfl

theorem expandingFrom_cons_of_none {d : Declared κ} (h : d.fluidProperty? = none)
    (before ds : List (Declared κ)) :
    expandingFrom before (d :: ds) = expandingFrom (before ++ [d]) ds := by
  have hbefore : fluidOnes (before ++ [d]) = fluidOnes before := by
    rw [fluidOnes_append, fluidOnes_cons, h]
    exact List.append_nil _
  rw [expandingFrom, expandingFrom, hbefore, fluidOnes_cons, h]

theorem expandingFrom_cons_of_some {d : Declared κ} {p : Property} (h : d.fluidProperty? = some p)
    (before ds : List (Declared κ)) :
    expandingFrom before (d :: ds) =
      if ds.any (asks p) then expandingFrom (before ++ [d]) ds
      else (p, d, before.filter (asks p)) :: expandingFrom (before ++ [d]) ds := by
  have hbefore : fluidOnes (before ++ [d]) = fluidOnes before ++ [(p, d)] := by
    rw [fluidOnes_append, fluidOnes_cons, h]
    rfl
  rw [expandingFrom, expandingFrom, hbefore, fluidOnes_cons, h]
  dsimp only
  rw [lastOnesFrom, any_fluidOnes, filter_fluidOnes]

/-- A declaration is the last one of a list that asks for a fluid size of the property, and these are
the ones before it that do, those in `before` included. -/
def IsLastOf (p : Property) (before ds : List (Declared κ)) (d : Declared κ)
    (overridden : List (Declared κ)) : Prop :=
  ∃ xs ys, ds = xs ++ d :: ys ∧ d.asks p = true ∧ (∀ y ∈ ys, ¬ y.asks p = true) ∧
    overridden = (before ++ xs).filter (asks p)

theorem not_isLastOf_nil {p : Property} {before : List (Declared κ)} {d : Declared κ}
    {overridden : List (Declared κ)} : ¬ IsLastOf p before [] d overridden := by
  rintro ⟨xs, ys, heq, -⟩
  exact absurd heq (by simp)

/-- The last one is the first of the list or stands behind it. -/
theorem isLastOf_cons {p : Property} {before ds : List (Declared κ)} {c d : Declared κ}
    {overridden : List (Declared κ)} :
    IsLastOf p before (c :: ds) d overridden ↔
      (c = d ∧ d.asks p = true ∧ ¬ ds.any (asks p) = true ∧
          overridden = before.filter (asks p)) ∨
        IsLastOf p (before ++ [c]) ds d overridden := by
  have hfilter : ∀ xs, before ++ [c] ++ xs = before ++ (c :: xs) := by
    intro xs
    rw [List.append_assoc, List.singleton_append]
  constructor
  · rintro ⟨xs, ys, heq, hd, hys, ho⟩
    cases xs with
    | nil =>
      obtain ⟨rfl, rfl⟩ := List.cons.inj heq
      exact .inl ⟨rfl, hd, by simpa using hys, by rw [ho, List.append_nil]⟩
    | cons x xs =>
      obtain ⟨rfl, rfl⟩ := List.cons.inj heq
      exact .inr ⟨xs, ys, rfl, hd, hys, by rw [ho, hfilter]⟩
  · rintro (⟨rfl, hd, hds, ho⟩ | ⟨xs, ys, rfl, hd, hys, ho⟩)
    · exact ⟨[], ds, rfl, hd, by simpa using hds, by rw [ho, List.append_nil]⟩
    · exact ⟨c :: xs, ys, rfl, hd, hys, by rw [ho, hfilter]⟩

theorem mem_expandingFrom_iff {p : Property} {d : Declared κ} {overridden : List (Declared κ)}
    (before ds : List (Declared κ)) :
    (p, d, overridden) ∈ expandingFrom before ds ↔ IsLastOf p before ds d overridden := by
  induction ds generalizing before with
  | nil =>
    rw [expandingFrom_nil]
    exact iff_of_false List.not_mem_nil not_isLastOf_nil
  | cons c ds ih =>
    rw [isLastOf_cons, ← ih]
    cases hc : c.fluidProperty? with
    | none =>
      rw [expandingFrom_cons_of_none hc]
      refine (or_iff_right ?_).symm
      rintro ⟨rfl, hd, -⟩
      exact absurd (hc.symm.trans (asks_iff.1 hd)) (by simp)
    | some q =>
      rw [expandingFrom_cons_of_some hc]
      by_cases hany : ds.any (asks q) = true
      · rw [if_pos hany]
        refine (or_iff_right ?_).symm
        rintro ⟨rfl, hd, hds, -⟩
        obtain rfl := Option.some.inj (hc.symm.trans (asks_iff.1 hd))
        exact hds hany
      · rw [if_neg hany, List.mem_cons, Prod.mk.injEq, Prod.mk.injEq]
        refine or_congr_left ⟨?_, ?_⟩
        · rintro ⟨rfl, rfl, rfl⟩
          exact ⟨rfl, asks_iff.2 hc, hany, rfl⟩
        · rintro ⟨rfl, hd, -, ho⟩
          obtain rfl := Option.some.inj (hc.symm.trans (asks_iff.1 hd))
          exact ⟨rfl, rfl, ho⟩

/-- **The last fluid declaration of each property is expanded, and overrides all earlier ones.** -/
theorem mem_expanding_iff {p : Property} {d : Declared κ} {overridden : List (Declared κ)}
    {ds : List (Declared κ)} :
    (p, d, overridden) ∈ expanding ds ↔
      ∃ xs ys, ds = xs ++ d :: ys ∧ d.asks p = true ∧ (∀ y ∈ ys, ¬ y.asks p = true) ∧
        overridden = xs.filter (asks p) := by
  rw [expanding_eq, mem_expandingFrom_iff]
  rfl

theorem exists_last {p : Property} {ds : List (Declared κ)} (h : ds.any (asks p) = true) :
    ∃ xs last ys, ds = xs ++ last :: ys ∧ last.asks p = true ∧ ∀ y ∈ ys, ¬ y.asks p = true := by
  induction ds with
  | nil => exact absurd h (by simp)
  | cons c ds ih =>
    by_cases hany : ds.any (asks p) = true
    · obtain ⟨xs, last, ys, rfl, hlast, hys⟩ := ih hany
      exact ⟨c :: xs, last, ys, rfl, hlast, hys⟩
    · rw [List.any_cons, Bool.eq_false_iff.2 hany, Bool.or_false] at h
      exact ⟨[], c, ds, rfl, h, fun y hy hasks => hany (List.any_eq_true.2 ⟨y, hy, hasks⟩)⟩

/-- A property that a declaration asks a fluid size of is expanded at that declaration or at a later
one that overrides it. -/
theorem exists_mem_expanding {p : Property} {ds : List (Declared κ)} {d : Declared κ} (hd : d ∈ ds)
    (hp : d.asks p = true) :
    ∃ last overridden, (p, last, overridden) ∈ expanding ds ∧ (d = last ∨ d ∈ overridden) := by
  obtain ⟨xs, last, ys, rfl, hlast, hys⟩ := exists_last (List.any_eq_true.2 ⟨d, hd, hp⟩)
  refine ⟨last, xs.filter (asks p), mem_expanding_iff.2 ⟨xs, ys, rfl, hlast, hys, rfl⟩, ?_⟩
  rcases List.mem_append.1 hd with hxs | hrest
  · exact .inr (List.mem_filter.2 ⟨hxs, hp⟩)
  · rcases List.mem_cons.1 hrest with rfl | hmem
    · exact .inl rfl
    · exact absurd hp (hys d hmem)

/-- Nothing is expanded where nothing is asked for. -/
theorem expanding_eq_nil_iff {ds : List (Declared κ)} :
    expanding ds = [] ↔ ∀ d ∈ ds, d.fluidProperty? = none := by
  constructor
  · intro h d hd
    refine Option.eq_none_iff_forall_ne_some.2 fun p hp => ?_
    obtain ⟨last, overridden, hentry, -⟩ := exists_mem_expanding hd (asks_iff.2 hp)
    rw [h] at hentry
    exact absurd hentry List.not_mem_nil
  · intro h
    refine List.eq_nil_iff_forall_not_mem.2 fun ⟨p, d, overridden⟩ hentry => ?_
    obtain ⟨xs, ys, rfl, hd, -⟩ := mem_expanding_iff.1 hentry
    rw [asks_iff, h d (by simp)] at hd
    exact absurd hd (by simp)

/-- The declarations that are expanded come in their order. -/
theorem sublist_expandingFrom (before ds : List (Declared κ)) :
    ((expandingFrom before ds).map fun entry => entry.2.1).Sublist ds := by
  induction ds generalizing before with
  | nil => exact List.Sublist.refl _
  | cons d ds ih =>
    cases hd : d.fluidProperty? with
    | none =>
      rw [expandingFrom_cons_of_none hd]
      exact (ih _).cons d
    | some p =>
      rw [expandingFrom_cons_of_some hd]
      split
      · exact (ih _).cons d
      · exact (ih _).cons_cons d

/-! ## Without keys -/

/-- A declaration that is not known by any key. -/
def forget (d : Declared κ) : Declared Unit := ⟨(), d.prop, d.value⟩

theorem named_map_forget (ds : List (Declared κ)) (name : String) :
    named (ds.map forget) name = (named ds name).map forget :=
  List.filter_map

/-- The bounds do not depend on the keys. -/
theorem boundsOf_map_forget (p : Property) (defaults : Bounds) (ds : List (Declared κ)) :
    boundsOf p defaults (ds.map forget) = boundsOf p defaults ds := by
  unfold boundsOf
  simp only [named_map_forget, List.foldl_map]
  rfl

/-- The root font size does not depend on the keys. -/
theorem rootFontSizeAfter_map_forget (selector : String) (ds : List (Declared κ))
    (current : String) :
    rootFontSizeAfter selector (ds.map forget) current = rootFontSizeAfter selector ds current := by
  unfold rootFontSizeAfter lastPixelSize
  rw [named_map_forget, List.foldl_map]
  rfl

theorem any_asks_map_forget (p : Property) (ds : List (Declared κ)) :
    (ds.map forget).any (asks p) = ds.any (asks p) := by
  rw [List.any_map]
  rfl

/-- Which properties are expanded depends neither on the keys nor on what is overridden. -/
theorem map_fst_expandingFrom_map_forget (before : List (Declared κ))
    (before' : List (Declared Unit)) (ds : List (Declared κ)) :
    (expandingFrom before' (ds.map forget)).map (·.1) = (expandingFrom before ds).map (·.1) := by
  induction ds generalizing before before' with
  | nil => rfl
  | cons d ds ih =>
    rw [List.map_cons]
    cases hd : d.fluidProperty? with
    | none =>
      have hd' : d.forget.fluidProperty? = none := hd
      rw [expandingFrom_cons_of_none hd, expandingFrom_cons_of_none hd']
      exact ih _ _
    | some p =>
      have hd' : d.forget.fluidProperty? = some p := hd
      rw [expandingFrom_cons_of_some hd, expandingFrom_cons_of_some hd', any_asks_map_forget]
      split
      · exact ih _ _
      · rw [List.map_cons, List.map_cons, ih]

/-! ## What an expansion takes out -/

/-- The declarations that are of no use once a property is expanded that overrides others. -/
def spentOn (p : Property) (ds overridden : List (Declared κ)) : List (Declared κ) :=
  named ds p.range ++ longhands p ds ++ overridden

/-- Whether a declaration only sets bounds of a property. -/
def setsBounds (p : Property) (d : Declared κ) : Bool :=
  d.prop == p.range || Bound.all.any fun b => d.prop == p.longhand b

theorem mem_spentOn_iff {p : Property} {ds overridden : List (Declared κ)} {d : Declared κ} :
    d ∈ spentOn p ds overridden ↔ d ∈ ds ∧ d.setsBounds p = true ∨ d ∈ overridden := by
  simp only [spentOn, longhands, named, setsBounds, List.mem_append, List.mem_filter,
    List.mem_flatMap, Bool.or_eq_true, beq_iff_eq, List.any_eq_true]
  grind

/-- No declaration sets bounds of one property and asks for a fluid size of another. -/
theorem not_asks_of_setsBounds {p q : Property} {d : Declared κ} (h : d.setsBounds p = true) :
    ¬ d.asks q = true := by
  intro hq
  rw [asks_iff, fluidProperty?] at hq
  split at hq
  · have hname := Property.name_of_ofName? _ _ hq
    rw [setsBounds, ← hname] at h
    revert h
    cases p <;> cases q <;> decide
  · exact absurd hq (by simp)

section Keys

variable {ds : List (Declared κ)} {p q : Property} {d e : Declared κ}
  {overridden overridden' : List (Declared κ)}

theorem mem_of_mem_expanding (h : (p, d, overridden) ∈ expanding ds) : d ∈ ds := by
  obtain ⟨xs, ys, rfl, -⟩ := mem_expanding_iff.1 h
  simp

theorem asks_of_mem_expanding (h : (p, d, overridden) ∈ expanding ds) : d.asks p = true := by
  obtain ⟨xs, ys, -, hd, -⟩ := mem_expanding_iff.1 h
  exact hd

theorem asks_of_mem_overridden (h : (p, d, overridden) ∈ expanding ds) (he : e ∈ overridden) :
    e ∈ ds ∧ e.asks p = true := by
  obtain ⟨xs, ys, rfl, -, -, rfl⟩ := mem_expanding_iff.1 h
  obtain ⟨hxs, hasks⟩ := List.mem_filter.1 he
  exact ⟨List.mem_append_left _ hxs, hasks⟩

theorem mem_of_mem_spentOn (h : (p, d, overridden) ∈ expanding ds)
    (he : e ∈ spentOn p ds overridden) : e ∈ ds := by
  rcases mem_spentOn_iff.1 he with ⟨hmem, -⟩ | hmem
  · exact hmem
  · exact (asks_of_mem_overridden h hmem).1

/-- **What is expanded is not taken out by any expansion.** -/
theorem not_mem_spentOn (hnodup : ds.Nodup) (h : (p, d, overridden) ∈ expanding ds)
    (h' : (q, e, overridden') ∈ expanding ds) : d ∉ spentOn q ds overridden' := by
  intro hmem
  have hasks := asks_of_mem_expanding h
  rcases mem_spentOn_iff.1 hmem with ⟨-, hsets⟩ | hover
  · exact not_asks_of_setsBounds hsets hasks
  · -- overridden, it would stand in front of another one of its property
    obtain ⟨xs', ys', hds', he, hys', rfl⟩ := mem_expanding_iff.1 h'
    obtain ⟨hxs', hasks'⟩ := List.mem_filter.1 hover
    obtain rfl : p = q := by
      rw [asks_iff] at hasks hasks'
      exact Option.some.inj (hasks.symm.trans hasks')
    obtain ⟨xs, ys, hds, -, hys, -⟩ := mem_expanding_iff.1 h
    obtain ⟨as, bs, rfl⟩ := List.append_of_mem hxs'
    have heq : xs ++ d :: ys = as ++ d :: (bs ++ e :: ys') := by
      rw [← hds, hds', List.append_assoc, List.cons_append]
    have hnot := not_mem_of_nodup_middle (hds ▸ hnodup)
    obtain ⟨-, -, rfl⟩ := (List.append_cons_inj_of_notMem hnot.1 hnot.2).1 heq
    exact hys e (by simp) he

end Keys

end Declared

end FluidCss
