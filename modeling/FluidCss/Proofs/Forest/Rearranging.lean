import FluidCss.Proofs.Forest.Growth

set_option autoImplicit false

/-! # Rearrangements, node by node

A rearrangement is described by what stands in the place of each node afterwards: nothing, the node
itself, or the node with others behind it (`Rearranged`). Taking a node out, putting a detached node
behind another one and replacing a node are of this form, and so is a sequence of such steps. -/

namespace FluidCss

/-! ## Lists in which one element is changed -/

section Lists

variable {α : Type} {x n : α} {xs : List α}

theorem flatMap_eq_self {σ : α → List α} (h : ∀ k ∈ xs, σ k = [k]) : xs.flatMap σ = xs := by
  rw [List.flatMap_congr h, List.flatMap_singleton']

variable [DecidableEq α]

theorem erase_eq_flatMap (h : xs.Nodup) (n : α) :
    xs.erase n = xs.flatMap fun k => if k = n then [] else [k] := by
  induction xs with
  | nil => rfl
  | cons y ys ih =>
    obtain ⟨hy, hys⟩ := List.nodup_cons.1 h
    rw [List.flatMap_cons, ← ih hys]
    by_cases hyn : y = n
    · subst hyn
      rw [List.erase_cons_head, if_pos rfl, List.erase_of_not_mem hy]
      rfl
    · rw [List.erase_cons_tail (by simpa using hyn), if_neg hyn]
      rfl

/-- Putting an element behind another one is a change of that other one. -/
theorem insertAt_eq_flatMap (h : xs.Nodup) (hx : x ∈ xs) (n : α) :
    insertAt (xs.idxOf x + 1) n xs = xs.flatMap fun k => if k = x then [k, n] else [k] := by
  induction xs with
  | nil => exact absurd hx (by simp)
  | cons y ys ih =>
    obtain ⟨hy, hys⟩ := List.nodup_cons.1 h
    rw [List.flatMap_cons]
    by_cases hyx : y = x
    · subst hyx
      have hrest : (ys.flatMap fun k => if k = y then [k, n] else [k]) = ys := by
        refine flatMap_eq_self fun k hk => if_neg ?_
        rintro rfl
        exact hy hk
      rw [List.idxOf_cons_self, if_pos rfl, hrest]
      rfl
    · rw [List.idxOf_cons_ne _ hyx, if_neg hyx, ← ih hys (List.mem_of_ne_of_mem (Ne.symm hyx) hx)]
      rfl

end Lists

namespace Forest

variable {f g h : Forest} {σ τ : NodeId → List NodeId} {ρ π : NodeId → NodeId}
  {n m x c : NodeId}

/-- Whether `g` is `f` with `σ n` in the place of each node `n`, each node being said to be read
from where `ρ` of it was. -/
structure Rearranged (f g : Forest) (σ : NodeId → List NodeId) (ρ : NodeId → NodeId) : Prop where
  wellFormed : g.WellFormed
  size_eq : g.size = f.size
  content_eq : ∀ n, g.content n = f.content n
  source_eq : ∀ n, g.source n = f.source (ρ n)
  children_eq : ∀ n, g.children n = (f.children n).flatMap σ

namespace Rearranged

theorem refl (hf : f.WellFormed) : Rearranged f f (fun n => [n]) id :=
  ⟨hf, rfl, fun _ => rfl, fun _ => rfl, fun _ => (List.flatMap_singleton' _).symm⟩

theorem trans (hfg : Rearranged f g σ ρ) (hgh : Rearranged g h τ π) :
    Rearranged f h (fun n => (σ n).flatMap τ) (ρ ∘ π) where
  wellFormed := hgh.wellFormed
  size_eq := hgh.size_eq.trans hfg.size_eq
  content_eq n := (hgh.content_eq n).trans (hfg.content_eq n)
  source_eq n := (hgh.source_eq n).trans (hfg.source_eq (π n))
  children_eq n := by rw [hgh.children_eq, hfg.children_eq, List.flatMap_assoc]

theorem of_eq (h : Rearranged f g σ ρ) (hσ : ∀ n, σ n = τ n) (hρ : ∀ n, ρ n = π n) :
    Rearranged f g τ π := by
  obtain rfl : σ = τ := funext hσ
  obtain rfl : ρ = π := funext hρ
  exact h

/-- A node has come into a list of children as itself or in the place of another one. -/
theorem parent_iff (h : Rearranged f g σ ρ) :
    g.parent n = some m ↔ ∃ k ∈ f.children m, n ∈ σ k := by
  rw [← h.wellFormed.listed_iff, h.children_eq, List.mem_flatMap]

/-- A node that only itself is replaced by stays where it is. -/
theorem parent_eq_some (h : Rearranged f g σ ρ) (hf : f.WellFormed) (hn : n ∈ σ n)
    (hp : f.parent n = some m) : g.parent n = some m :=
  h.parent_iff.2 ⟨n, hf.mem_children hp, hn⟩

/-- A node that no other node is replaced by does not come into a list of children. -/
theorem parent_eq_none (h : Rearranged f g σ ρ) (hf : f.WellFormed)
    (hn : ∀ k, n ∈ σ k → k = n) (hp : f.parent n = none) : g.parent n = none := by
  refine Option.eq_none_iff_forall_ne_some.2 ?_
  intro m hm
  obtain ⟨k, hk, hmem⟩ := h.parent_iff.1 hm
  rw [hn k hmem] at hk
  rw [hf.parent_of_mem hk] at hp
  exact absurd hp (by simp)

end Rearranged

/-! ## Old nodes -/

/-- Whether the containers of the nodes before a bound stand before it too. -/
def ClosedBelow (f : Forest) (bound : NodeId) : Prop :=
  ∀ n p, n < bound → f.parent n = some p → p < bound

variable {bound : NodeId}

theorem WellFormed.closedBelow (hf : f.WellFormed) (hfg : f.GrowsTo g) : g.ClosedBelow f.size := by
  intro n p hn hp
  rw [hfg.parent_eq hn] at hp
  exact hf.parent_lt_size hp

theorem Rearranged.closedBelow (h : Rearranged f g σ ρ) (hf : f.WellFormed)
    (hclosed : f.ClosedBelow bound) (hσ : ∀ k, ∀ n ∈ σ k, n < bound → n = k) :
    g.ClosedBelow bound := by
  intro n p hn hp
  obtain ⟨k, hk, hmem⟩ := h.parent_iff.1 hp
  obtain rfl := hσ k n hmem hn
  exact hclosed n p hn (hf.parent_of_mem hk)

/-- What stands above an old node is old. -/
theorem ClosedBelow.lt_of_isAbove {a : NodeId} (hclosed : f.ClosedBelow bound) (hn : n < bound)
    (h : f.IsAbove a n) : a < bound := by
  induction h with
  | refl => exact hn
  | tail _ hp ih => exact hclosed _ _ ih hp

theorem ClosedBelow.not_isAbove (hclosed : f.ClosedBelow bound) (hc : c < bound)
    (hn : bound ≤ n) : ¬ f.IsAbove n c := fun h =>
  Nat.not_lt_of_le hn (hclosed.lt_of_isAbove hc h)

/-- Whether a node stands behind a bound and below no other node. -/
structure IsNew (f : Forest) (bound n : NodeId) : Prop where
  bound_le : bound ≤ n
  lt_size : n < f.size
  detached : f.parent n = none

/-- A new node stays new as long as it is not put in the place of another one. -/
theorem Rearranged.isNew (h : Rearranged f g σ ρ) (hf : f.WellFormed)
    (hn : ∀ k, n ∈ σ k → k = n) (hnew : f.IsNew bound n) : g.IsNew bound n where
  bound_le := hnew.bound_le
  lt_size := h.size_eq.symm ▸ hnew.lt_size
  detached := h.parent_eq_none hf hn hnew.detached

theorem IsNew.ne (h : f.IsNew bound n) {k : NodeId} (hk : k < bound) : n ≠ k :=
  Nat.ne_of_gt (Nat.lt_of_lt_of_le hk h.bound_le)

/-! ## The elementary rearrangements -/

theorem WellFormed.rearranged_detach (hf : f.WellFormed) (n : NodeId) :
    Rearranged f (f.detach n) (fun k => if k = n then [] else [k]) id where
  wellFormed := hf.detach n
  size_eq := size_detach f n
  content_eq := content_detach f n
  source_eq := source_detach f n
  children_eq m := by rw [hf.children_detach, erase_eq_flatMap (hf.nodup m)]

/-- A detached node may be put behind any node that it does not stand above of. -/
theorem WellFormed.rearranged_putAt (hf : f.WellFormed) (hx : f.parent x = some c)
    (hn : n < f.size) (hp : f.parent n = none) (hnot : ¬ f.IsAbove n c) :
    Rearranged f (f.putAt c ((f.children c).idxOf x + 1) n)
      (fun k => if k = x then [k, n] else [k]) id where
  wellFormed := hf.putAt _ hn (hf.parent_lt_size hx) hnot
  size_eq := size_putAt _ _ _ _
  content_eq := content_putAt _ _ _ _
  source_eq := source_putAt _ _ _ _
  children_eq m := by
    have hmem := hf.mem_children hx
    have hnew : n ∉ f.children m := by
      intro hm
      rw [hf.parent_of_mem hm] at hp
      exact absurd hp (by simp)
    rw [hf.children_putAt _ (hf.parent_lt_size hx), List.erase_of_not_mem hnew]
    by_cases hm : c = m
    · subst hm
      rw [if_pos rfl, insertAt_eq_flatMap (hf.nodup c) hmem]
    · rw [if_neg hm]
      refine (flatMap_eq_self fun k hk => if_neg ?_).symm
      rintro rfl
      exact hm (hf.eq_of_mem_children hmem hk)

section SetSource

variable {source : Option Position}

@[simp]
theorem size_setSource (f : Forest) (n : NodeId) (source : Option Position) :
    (f.setSource n source).size = f.size := size_update _ _ _

@[simp]
theorem content_setSource (f : Forest) (n m : NodeId) (source : Option Position) :
    (f.setSource n source).content m = f.content m := by
  simp only [content, setSource, cell_update]
  split <;> rfl

@[simp]
theorem parent_setSource (f : Forest) (n m : NodeId) (source : Option Position) :
    (f.setSource n source).parent m = f.parent m := by
  simp only [parent, setSource, cell_update]
  split <;> rfl

@[simp]
theorem children_setSource (f : Forest) (n m : NodeId) (source : Option Position) :
    (f.setSource n source).children m = f.children m := by
  simp only [children, setSource, cell_update]
  split <;> rfl

theorem source_setSource (f : Forest) (n m : NodeId) (source : Option Position) :
    (f.setSource n source).source m = if n = m ∧ n < f.size then source else f.source m := by
  simp only [Forest.source, setSource, cell_update]
  split <;> rfl

/-- A node may be said to be read from where another one was. -/
theorem WellFormed.rearranged_setSource (hf : f.WellFormed) (hn : n < f.size) (x : NodeId) :
    Rearranged f (f.setSource n (f.source x)) (fun k => [k]) (fun k => if k = n then x else k) where
  wellFormed := by
    refine ⟨fun k p => ?_, fun p => ?_, ?_⟩
    · rw [children_setSource, parent_setSource, hf.listed_iff]
    · rw [children_setSource]
      exact hf.nodup p
    · simpa only [parent_setSource] using hf.acyclic
  size_eq := size_setSource _ _ _
  content_eq _ := content_setSource _ _ _ _
  source_eq k := by
    rw [source_setSource]
    by_cases hk : k = n
    · rw [if_pos ⟨hk.symm, hn⟩, if_pos hk]
    · rw [if_neg fun h => hk h.1.symm, if_neg hk]
  children_eq _ := by rw [children_setSource, List.flatMap_singleton']

end SetSource

end Forest

/-! ## The operations -/

namespace Edit

open Forest

variable {f : Forest} {x n c : NodeId}

theorem setSource_eq (f : Forest) (n : NodeId) (source : Option Position) :
    setSource n source f = .ok () (f.setSource n source) := rfl

/-- Putting a detached node behind a child of a container. -/
theorem insertAfter_ok (hf : f.WellFormed) (hx : f.parent x = some c) (hn : n < f.size)
    (hp : f.parent n = none) (hnot : ¬ f.IsAbove n c) :
    ∃ g, insertAfter c x [n] f = .ok () g ∧
      Rearranged f g (fun k => if k = x then [k, n] else [k]) id := by
  refine ⟨_, ?_, hf.rearranged_putAt hx hn hp hnot⟩
  rw [insertAfter, bind_of_ok (indexOf_of_mem (hf.mem_children hx)), insertFrom_cons hf]
  rfl

/-- Replacing a child of a container by a detached node. -/
theorem replaceWith_ok (hf : f.WellFormed) (hx : f.parent x = some c) (hn : n < f.size)
    (hp : f.parent n = none) (hnot : ¬ f.IsAbove n c) :
    ∃ g, replaceWith x [n] f = .ok () g ∧
      Rearranged f g (fun k => if k = x then [n] else [k]) id := by
  obtain ⟨g, hrun, hfg⟩ := insertAfter_ok hf hx hn hp hnot
  have hne : n ≠ x := by
    rintro rfl
    rw [hx] at hp
    exact absurd hp (by simp)
  refine ⟨g.detach x, ?_, ?_⟩
  · rw [replaceWith, get_bind, hx]
    dsimp only
    rw [bind_of_ok hrun, remove_of_wellFormed hfg.wellFormed]
  · refine (hfg.trans (hfg.wellFormed.rearranged_detach x)).of_eq (fun k => ?_) fun k => rfl
    by_cases hk : k = x
    · simp [hk, hne]
    · simp [hk]

end Edit

end FluidCss
