import FluidCss.Forest.Copy
import FluidCss.Forest.Tree
import FluidCss.Proofs.Forest.Links
import Mathlib.Algebra.Order.BigOperators.Group.List
import Mathlib.Algebra.Order.Group.Nat

set_option autoImplicit false

/-! # New nodes

Making nodes leaves those that exist as they are (`GrowsTo`). A new node is above the detached nodes
that it is given as children and stands alone otherwise, so the links of a well-formed store go on
to agree. -/

namespace FluidCss

namespace Forest

variable {f g h : Forest} {n m : NodeId}

/-! ## Larger stores -/

/-- Whether `g` has all nodes of `f`, as they are there. -/
structure GrowsTo (f g : Forest) : Prop where
  size_le : f.size ≤ g.size
  cell_eq : ∀ n, n < f.size → g.cell n = f.cell n

namespace GrowsTo

theorem refl (f : Forest) : f.GrowsTo f := ⟨Nat.le_refl _, fun _ _ => rfl⟩

theorem trans (hfg : f.GrowsTo g) (hgh : g.GrowsTo h) : f.GrowsTo h where
  size_le := hfg.size_le.trans hgh.size_le
  cell_eq n hn := by rw [hgh.cell_eq n (Nat.lt_of_lt_of_le hn hfg.size_le), hfg.cell_eq n hn]

theorem content_eq (hfg : f.GrowsTo g) (hn : n < f.size) : g.content n = f.content n := by
  rw [content, hfg.cell_eq n hn, content]

theorem source_eq (hfg : f.GrowsTo g) (hn : n < f.size) : g.source n = f.source n := by
  rw [source, hfg.cell_eq n hn, source]

theorem parent_eq (hfg : f.GrowsTo g) (hn : n < f.size) : g.parent n = f.parent n := by
  rw [parent, hfg.cell_eq n hn, parent]

theorem children_eq (hfg : f.GrowsTo g) (hn : n < f.size) : g.children n = f.children n := by
  rw [children, hfg.cell_eq n hn, children]

end GrowsTo

/-! ## Telling nodes their parent -/

theorem size_foldl_setParent (f : Forest) (p : Option NodeId) (cs : List NodeId) :
    (cs.foldl (fun g c => g.setParent c p) f).size = f.size := by
  induction cs generalizing f with
  | nil => rfl
  | cons c cs ih => rw [List.foldl_cons, ih, size_setParent]

theorem content_foldl_setParent (f : Forest) (p : Option NodeId) (cs : List NodeId) (m : NodeId) :
    (cs.foldl (fun g c => g.setParent c p) f).content m = f.content m := by
  induction cs generalizing f with
  | nil => rfl
  | cons c cs ih => rw [List.foldl_cons, ih, content_setParent]

theorem source_foldl_setParent (f : Forest) (p : Option NodeId) (cs : List NodeId) (m : NodeId) :
    (cs.foldl (fun g c => g.setParent c p) f).source m = f.source m := by
  induction cs generalizing f with
  | nil => rfl
  | cons c cs ih => rw [List.foldl_cons, ih, source_setParent]

theorem children_foldl_setParent (f : Forest) (p : Option NodeId) (cs : List NodeId) (m : NodeId) :
    (cs.foldl (fun g c => g.setParent c p) f).children m = f.children m := by
  induction cs generalizing f with
  | nil => rfl
  | cons c cs ih => rw [List.foldl_cons, ih, children_setParent]

theorem parent_foldl_setParent (f : Forest) (p : Option NodeId) (cs : List NodeId)
    (hcs : ∀ c ∈ cs, c < f.size) (m : NodeId) :
    (cs.foldl (fun g c => g.setParent c p) f).parent m = if m ∈ cs then p else f.parent m := by
  induction cs generalizing f with
  | nil => rfl
  | cons c cs ih =>
    have hc := hcs c (by simp)
    rw [List.foldl_cons, ih _ (by rw [size_setParent]; exact fun d hd => hcs d (by simp [hd])),
      parent_setParent]
    by_cases hm : m ∈ cs
    · rw [if_pos hm, if_pos (by simp [hm])]
    · rw [if_neg hm]
      by_cases hcm : c = m
      · rw [if_pos ⟨hcm, hc⟩, if_pos (by simp [hcm])]
      · rw [if_neg (fun h => hcm h.1), if_neg (by simp [hm, Ne.symm hcm])]

/-! ## A new node -/

variable {content : Content} {source : Option Position} {cs : List NodeId}

@[simp]
theorem add_fst (f : Forest) (content : Content) (source : Option Position) (cs : List NodeId) :
    (f.add content source cs).1 = f.size := rfl

@[simp]
theorem size_add (f : Forest) (content : Content) (source : Option Position) (cs : List NodeId) :
    (f.add content source cs).2.size = f.size + 1 := by
  rw [add, size_foldl_setParent, size_push]

theorem content_add (f : Forest) (content : Content) (source : Option Position)
    (cs : List NodeId) (m : NodeId) : (f.add content source cs).2.content m =
      if m = f.size then content else f.content m := by
  rw [add, content_foldl_setParent, Forest.content, cell_push]
  split <;> rfl

theorem source_add (f : Forest) (content : Content) (source : Option Position)
    (cs : List NodeId) (m : NodeId) : (f.add content source cs).2.source m =
      if m = f.size then source else f.source m := by
  rw [add, source_foldl_setParent, Forest.source, cell_push]
  split <;> rfl

theorem children_add (f : Forest) (content : Content) (source : Option Position)
    (cs : List NodeId) (m : NodeId) : (f.add content source cs).2.children m =
      if m = f.size then cs else f.children m := by
  rw [add, children_foldl_setParent, children, cell_push]
  split <;> rfl

theorem parent_add (f : Forest) (content : Content) (source : Option Position)
    {cs : List NodeId} (hcs : ∀ c ∈ cs, c < f.size) (m : NodeId) :
    (f.add content source cs).2.parent m = if m ∈ cs then some f.size else f.parent m := by
  have hlt : ∀ c ∈ cs, c < (f.push ⟨content, source, none, cs⟩).size := by
    intro c hc
    rw [size_push]
    exact Nat.lt_succ_of_lt (hcs c hc)
  rw [add, parent_foldl_setParent _ _ _ hlt]
  by_cases hm : m ∈ cs
  · rw [if_pos hm, if_pos hm]
  · rw [if_neg hm, if_neg hm, parent, cell_push]
    by_cases hn : m = f.size
    · rw [if_pos hn, parent, cell_of_size_le (Nat.le_of_eq hn.symm)]
      rfl
    · rw [if_neg hn, parent]

/-- A node may be made above detached nodes. -/
theorem WellFormed.add (hf : f.WellFormed) (content : Content) (source : Option Position)
    (hcs : ∀ c ∈ cs, c < f.size) (hnodup : cs.Nodup) (hdetached : ∀ c ∈ cs, f.parent c = none) :
    (f.add content source cs).2.WellFormed where
  listed_iff k p := by
    rw [children_add, parent_add _ _ _ hcs]
    by_cases hp : p = f.size
    · rw [if_pos hp, hp]
      by_cases hk : k ∈ cs
      · simp [hk]
      · rw [if_neg hk]
        refine iff_of_false hk ?_
        intro hparent
        exact absurd (hf.parent_lt_size hparent) (Nat.lt_irrefl _)
    · rw [if_neg hp]
      by_cases hk : k ∈ cs
      · rw [if_pos hk, hf.listed_iff, hdetached k hk]
        simp [Ne.symm hp]
      · rw [if_neg hk, hf.listed_iff]
  nodup p := by
    rw [children_add]
    split
    · exact hnodup
    · exact hf.nodup p
  acyclic := by
    obtain ⟨rank, hrank⟩ := hf.acyclic
    -- the new node is ranked above all its children together
    refine ⟨fun k => if k = f.size then (cs.map rank).sum + 1 else rank k, fun k p hp => ?_⟩
    rw [parent_add _ _ _ hcs] at hp
    by_cases hk : k ∈ cs
    · rw [if_pos hk] at hp
      obtain rfl := Option.some.inj hp
      have hle : rank k ≤ (cs.map rank).sum := List.single_le_sum (by simp) _ (List.mem_map_of_mem hk)
      simp only [if_neg (Nat.ne_of_lt (hcs k hk)), if_true]
      omega
    · rw [if_neg hk] at hp
      have hklt := lt_size_of_parent hp
      have hplt := hf.parent_lt_size hp
      simp only [if_neg (Nat.ne_of_lt hklt), if_neg (Nat.ne_of_lt hplt)]
      exact hrank k p hp

theorem cell_eq_of {k : NodeId} (hcontent : f.content n = g.content k)
    (hsource : f.source n = g.source k) (hparent : f.parent n = g.parent k)
    (hchildren : f.children n = g.children k) : f.cell n = g.cell k := by
  simp only [Forest.content, Forest.source, Forest.parent, children] at *
  generalize f.cell n = c at *
  generalize g.cell k = d at *
  cases c
  cases d
  simp_all

/-- Making a node leaves alone all but its children. -/
theorem GrowsTo.add (hfg : f.GrowsTo g) (content : Content) (source : Option Position)
    (hcs : ∀ c ∈ cs, f.size ≤ c ∧ c < g.size) : f.GrowsTo (g.add content source cs).2 where
  size_le := by
    rw [size_add]
    exact Nat.le_succ_of_le hfg.size_le
  cell_eq k hk := by
    have hne : k ≠ g.size := Nat.ne_of_lt (Nat.lt_of_lt_of_le hk hfg.size_le)
    have hnot : k ∉ cs := fun hmem => absurd hk (Nat.not_lt_of_le (hcs k hmem).1)
    refine cell_eq_of ?_ ?_ ?_ ?_
    · rw [content_add, if_neg hne, hfg.content_eq hk]
    · rw [source_add, if_neg hne, hfg.source_eq hk]
    · rw [parent_add _ _ _ fun c hc => (hcs c hc).2, if_neg hnot, hfg.parent_eq hk]
    · rw [children_add, if_neg hne, hfg.children_eq hk]

/-! ## Trees of new nodes -/

/-- What is known of nodes that have been made: they are new, and they stand below no other node. -/
structure Made (f g : Forest) (ids : List NodeId) : Prop where
  grows : f.GrowsTo g
  wellFormed : g.WellFormed
  fresh : ∀ n ∈ ids, f.size ≤ n ∧ n < g.size
  detached : ∀ n ∈ ids, g.parent n = none
  nodup : ids.Nodup

namespace Made

variable {ids ids' : List NodeId}

theorem nil (hf : f.WellFormed) : Made f f [] where
  grows := .refl f
  wellFormed := hf
  fresh := by simp
  detached := by simp
  nodup := List.nodup_nil

theorem append (hfg : Made f g ids) (hgh : Made g h ids') : Made f h (ids ++ ids') where
  grows := hfg.grows.trans hgh.grows
  wellFormed := hgh.wellFormed
  fresh n hn := by
    rcases List.mem_append.1 hn with hn | hn
    · exact ⟨(hfg.fresh n hn).1, Nat.lt_of_lt_of_le (hfg.fresh n hn).2 hgh.grows.size_le⟩
    · exact ⟨hfg.grows.size_le.trans (hgh.fresh n hn).1, (hgh.fresh n hn).2⟩
  detached n hn := by
    rcases List.mem_append.1 hn with hn | hn
    · rw [hgh.grows.parent_eq (hfg.fresh n hn).2, hfg.detached n hn]
    · exact hgh.detached n hn
  nodup := by
    refine List.nodup_append.2 ⟨hfg.nodup, hgh.nodup, ?_⟩
    rintro n hn m hm rfl
    exact absurd (hfg.fresh n hn).2 (Nat.not_lt_of_le (hgh.fresh n hm).1)

/-- A node may be made above nodes that have been made. -/
theorem above (hfg : Made f g ids) (content : Content) (source : Option Position) :
    Made f (g.add content source ids).2 [g.size] where
  grows := hfg.grows.add content source hfg.fresh
  wellFormed := hfg.wellFormed.add content source (fun n hn => (hfg.fresh n hn).2) hfg.nodup
    hfg.detached
  fresh n hn := by
    obtain rfl := List.mem_singleton.1 hn
    rw [size_add]
    exact ⟨hfg.grows.size_le, Nat.lt_succ_self _⟩
  detached n hn := by
    obtain rfl := List.mem_singleton.1 hn
    rw [parent_add _ _ _ fun n hn => (hfg.fresh n hn).2, if_neg, parent,
      cell_of_size_le (Nat.le_refl _)]
    · rfl
    · exact fun hmem => absurd (hfg.fresh _ hmem).2 (Nat.lt_irrefl _)
  nodup := List.nodup_singleton _

end Made

/-- Two stores with the same nodes are the same. -/
theorem eq_of_cell_eq (hsize : f.size = g.size) (h : ∀ n, f.cell n = g.cell n) : f = g := by
  obtain ⟨cells⟩ := f
  obtain ⟨cells'⟩ := g
  rw [Forest.mk.injEq]
  refine Array.ext hsize ?_
  intro i hi hi'
  simpa [cell, hi, hi'] using h i

theorem setParent_eq_self {p : Option NodeId} (h : f.parent n = p) : f.setParent n p = f := by
  refine eq_of_cell_eq (size_setParent _ _ _) fun m => cell_eq_of ?_ ?_ ?_ ?_
  · exact content_setParent _ _ _ _
  · exact source_setParent _ _ _ _
  · rw [parent_setParent]
    split
    · next hm => rw [← hm.1, h]
    · rfl
  · exact children_setParent _ _ _ _

end Forest

namespace Edit

open Forest

theorem create_eq (f : Forest) (content : Content) (source : Option Position) (cs : List NodeId) :
    create content source cs f = .ok f.size (f.add content source cs).2 := rfl

/-- A copy with other children is a new node like the one that is copied. -/
theorem copyWith_nodes (f : Forest) (n : NodeId) {cs : List NodeId} (hcs : ∀ c ∈ cs, c < f.size) :
    copyWith n { nodes := some cs } f = .ok f.size (f.add (f.content n) (f.source n) cs).2 := by
  have hparent : (f.add (f.content n) (f.source n) cs).2.parent f.size = none := by
    rw [parent_add _ _ _ hcs, if_neg fun hmem => absurd (hcs _ hmem) (Nat.lt_irrefl _)]
    rw [Forest.parent, cell_of_size_le (Nat.le_refl _)]
    rfl
  change EStateM.Result.ok f.size ((f.add (f.content n) (f.source n) cs).2.setParent f.size none) = _
  rw [setParent_eq_self hparent]

/-- If each of several nodes can be copied, all can be, one after the other. -/
theorem mapM_made {copy : NodeId → Edit NodeId}
    (hcopy : ∀ n f, f.WellFormed → ∃ m g, copy n f = .ok m g ∧ Made f g [m])
    (ns : List NodeId) (f : Forest) (hf : f.WellFormed) :
    ∃ ms g, ns.mapM copy f = .ok ms g ∧ Made f g ms := by
  induction ns generalizing f with
  | nil => exact ⟨[], f, rfl, .nil hf⟩
  | cons n ns ih =>
    obtain ⟨m, g, hm, hmade⟩ := hcopy n f hf
    obtain ⟨ms, h, hms, hmades⟩ := ih g hmade.wellFormed
    refine ⟨m :: ms, h, ?_, hmade.append hmades⟩
    rw [List.mapM_cons, bind_of_ok hm, bind_of_ok hms]
    rfl

/-- Copying never fails, and what it makes stands alone. -/
theorem copyFrom_ok (fuel : Nat) (n : NodeId) (f : Forest) (hf : f.WellFormed) :
    ∃ m g, copyFrom fuel n f = .ok m g ∧ Made f g [m] := by
  induction fuel generalizing n f with
  | zero => exact ⟨_, _, rfl, (Made.nil hf).above _ _⟩
  | succ fuel ih =>
    obtain ⟨ms, g, hms, hmade⟩ := mapM_made ih (f.children n) f hf
    refine ⟨_, _, ?_, hmade.above (g.content n) (g.source n)⟩
    rw [copyFrom, get_bind, bind_of_ok hms]
    rfl

theorem copyWith_ok {f : Forest} (hf : f.WellFormed) (n : NodeId) (change : Content → Content)
    (source : Option (Option Position)) :
    ∃ m g, copyWith n { content := change, source := source } f = .ok m g ∧ Made f g [m] := by
  obtain ⟨ms, g, hms, hmade⟩ := mapM_made (copyFrom_ok f.size) (f.children n) f hf
  have habove := hmade.above (change (g.content n)) (source.getD (g.source n))
  refine ⟨_, _, ?_, habove⟩
  rw [copyWith]
  refine (bind_bind_of_ok (by rw [get_bind]; exact hms)).trans ?_
  change EStateM.Result.ok g.size (((g.add (change (g.content n)) (source.getD (g.source n))
    ms).2).setParent g.size none) = _
  rw [setParent_eq_self (habove.detached _ (List.mem_singleton_self _))]

end Edit

end FluidCss
