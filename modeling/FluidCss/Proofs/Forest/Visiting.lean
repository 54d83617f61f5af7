import FluidCss.Proofs.Forest.Inserting
import FluidCss.Proofs.Forest.Rearranging
import FluidCss.Proofs.Forest.Walking

set_option autoImplicit false

/-! # Walks that change what they walk through

A walk looks a list of children up when it gets to the container, so what is done at the nodes met
before may have changed that list. It has not as long as no list is touched before one of its nodes
has been met (`KeepsAhead`): then the walk meets the nodes that were there when it began, in the
same order. Taking out each declaration that is met is of this kind, and so is putting a copy behind
it (`Forest.walkDeclarationsWith_remove_and_copyBehind`). -/

namespace FluidCss

namespace Edit

/-- Puts a copy of a node behind it, if it has a parent. -/
def copyBehind (n : NodeId) : Edit Unit := do
  let copy ← Edit.copy n
  match (← get).parent n with
  | some parent => insertAfter parent n [copy]
  | none => pure ()

section WalkAt

variable {α : Type}

/-- What a walk does at a node and then below it. -/
def walkAt (visit : NodeId → Edit (List α)) (fuel : Nat) (n : NodeId) : Edit (List α) := do
  let here ← visit n
  let below ← walkListWith visit fuel ((← get).children n)
  pure (here ++ below)

theorem walkListWith_succ (visit : NodeId → Edit (List α)) (fuel : Nat) (ns : List NodeId) :
    walkListWith visit (fuel + 1) ns =
      (ns.mapM (walkAt visit fuel) >>= fun parts => pure parts.flatten) := rfl

end WalkAt

end Edit

namespace Forest

variable {f g s : Forest} {named : String → Bool} {n p : NodeId} {met ds out : List NodeId}

/-! ## A walk with a visitor -/

section Walk

variable {α : Type} {visit : NodeId → Edit (List α)} {part : NodeId → List α}
  {Inv : List NodeId → Forest → Prop}

/-- Whether a visitor of the nodes of `f` gives `part n` at each node `n` that it gets to for the
first time, and changes no list of children before it has been at one of them. `Inv` is what is
known of the store when some nodes have been met. -/
structure KeepsAhead (f : Forest) (visit : NodeId → Edit (List α)) (part : NodeId → List α)
    (Inv : List NodeId → Forest → Prop) : Prop where
  visit_ok : ∀ met s n p, Inv met s → n ∉ met → f.parent n = some p →
    ∃ t, visit n s = .ok (part n) t ∧ Inv (met ++ [n]) t
  children_eq : ∀ met s n p, Inv met s → (∀ k ∈ f.children n, k ∉ met) → f.parent n = some p →
    s.children n = f.children n

/-- What is met below each of several nodes is met below all of them, one after the other. -/
theorem mapM_met {step : NodeId → Edit (List α)} {below : NodeId → List NodeId} (ns : List NodeId)
    (hstep : ∀ n ∈ ns, ∀ met s, Inv met s → (met ++ below n).Nodup →
      ∃ t, step n s = .ok ((below n).flatMap part) t ∧ Inv (met ++ below n) t)
    (hinv : Inv met s) (hnodup : (met ++ ns.flatMap below).Nodup) :
    ∃ parts t, ns.mapM step s = .ok parts t ∧
      parts.flatten = (ns.flatMap below).flatMap part ∧ Inv (met ++ ns.flatMap below) t := by
  induction ns generalizing met s with
  | nil =>
    rw [List.flatMap_nil, List.append_nil]
    exact ⟨[], s, rfl, rfl, hinv⟩
  | cons n ns ih =>
    rw [List.flatMap_cons, ← List.append_assoc] at hnodup ⊢
    have hhere := hnodup.sublist (List.sublist_append_left _ _)
    obtain ⟨t, hrun, ht⟩ := hstep n List.mem_cons_self met s hinv hhere
    obtain ⟨parts, u, hruns, hparts, hu⟩ :=
      ih (fun m hm => hstep m (List.mem_cons_of_mem n hm)) ht hnodup
    refine ⟨(below n).flatMap part :: parts, u, ?_, ?_, hu⟩
    · rw [List.mapM_cons, bind_of_ok hrun, bind_of_ok hruns]
      rfl
    · rw [List.flatten_cons, hparts, List.flatMap_append]

/-- **The walk meets the nodes that were there when it began.** -/
theorem KeepsAhead.walkListWith_ok (h : KeepsAhead f visit part Inv) (hf : f.WellFormed)
    (fuel : Nat) (ns : List NodeId) (hparent : ∀ n ∈ ns, ∃ p, f.parent n = some p)
    (hinv : Inv met s) (hnodup : (met ++ f.walkFrom fuel ns).Nodup) :
    ∃ t, Edit.walkListWith visit fuel ns s = .ok ((f.walkFrom fuel ns).flatMap part) t ∧
      Inv (met ++ f.walkFrom fuel ns) t := by
  induction fuel generalizing ns met s with
  | zero =>
    rw [walkFrom, List.append_nil]
    exact ⟨s, rfl, hinv⟩
  | succ fuel ih =>
    -- below a node the walk goes on among the children that the node had when the walk began
    have hbelow : ∀ n p, f.parent n = some p →
        ∀ met s, Inv met s → (met ++ f.walkFrom fuel (f.children n)).Nodup →
        ∃ t, Edit.walkListWith visit fuel (s.children n) s =
            .ok ((f.walkFrom fuel (f.children n)).flatMap part) t ∧
          Inv (met ++ f.walkFrom fuel (f.children n)) t := by
      intro n p hp met s hinv hnodup
      cases fuel with
      | zero =>
        rw [walkFrom, List.append_nil]
        exact ⟨s, rfl, hinv⟩
      | succ fuel =>
        have hunmet : ∀ k ∈ f.children n, k ∉ met := by
          intro k hk hmet
          have hwalk : k ∈ f.walkFrom (fuel + 1) (f.children n) :=
            List.mem_flatMap.2 ⟨k, hk, List.mem_cons_self⟩
          exact (List.nodup_append.1 hnodup).2.2 k hmet k hwalk rfl
        rw [h.children_eq met s n p hinv hunmet hp]
        exact ih (f.children n) (fun k hk => ⟨n, hf.parent_of_mem hk⟩) hinv hnodup
    have hat : ∀ n ∈ ns, ∀ met s, Inv met s →
        (met ++ n :: f.walkFrom fuel (f.children n)).Nodup →
        ∃ t, Edit.walkAt visit fuel n s =
            .ok ((n :: f.walkFrom fuel (f.children n)).flatMap part) t ∧
          Inv (met ++ n :: f.walkFrom fuel (f.children n)) t := by
      intro n hn met s hinv hnodup
      obtain ⟨p, hp⟩ := hparent n hn
      rw [← List.singleton_append, ← List.append_assoc] at hnodup ⊢
      have hunmet : n ∉ met := fun hmet =>
        (List.nodup_append.1 (List.nodup_append.1 hnodup).1).2.2 n hmet n (by simp) rfl
      obtain ⟨t, hvisit, ht⟩ := h.visit_ok met s n p hinv hunmet hp
      obtain ⟨u, hrun, hu⟩ := hbelow n p hp (met ++ [n]) t ht hnodup
      refine ⟨u, ?_, hu⟩
      rw [Edit.walkAt, bind_of_ok hvisit, get_bind, bind_of_ok hrun, List.flatMap_append,
        List.flatMap_singleton]
      rfl
    obtain ⟨parts, t, hrun, hparts, ht⟩ := mapM_met ns hat hinv hnodup
    refine ⟨t, ?_, ht⟩
    rw [Edit.walkListWith_succ, bind_of_ok hrun, hparts]
    rfl

/-- A visitor that starts at a node meets its descendants. -/
theorem KeepsAhead.walkWith_ok (h : KeepsAhead f visit part Inv) (hf : f.WellFormed)
    (hinv : Inv [] f) (root : NodeId) :
    ∃ t, Edit.walkWith visit root f = .ok ((f.walk root).flatMap part) t ∧ Inv (f.walk root) t :=
  h.walkListWith_ok hf (f.size + 1) (f.children root)
    (fun _ hn => ⟨root, hf.parent_of_mem hn⟩) hinv (hf.nodup_walk root)

end Walk

/-! ## Taking out what is met -/

/-- Whether `g` is `f` after the nodes `out` have been taken out of where they stood. -/
structure Pruned (f g : Forest) (out : List NodeId) : Prop where
  wellFormed : g.WellFormed
  size_eq : g.size = f.size
  content_eq : ∀ n, g.content n = f.content n
  source_eq : ∀ n, g.source n = f.source n
  parent_eq : ∀ n, g.parent n = if n ∈ out then none else f.parent n
  children_eq : ∀ n, g.children n = staying out (f.children n)

namespace Pruned

theorem refl (hf : f.WellFormed) : Pruned f f [] where
  wellFormed := hf
  size_eq := rfl
  content_eq _ := rfl
  source_eq _ := rfl
  parent_eq _ := by simp
  children_eq _ := by simp [staying]

theorem detach (h : Pruned f g out) (hf : f.WellFormed) (n : NodeId) :
    Pruned f (g.detach n) (out ++ [n]) where
  wellFormed := h.wellFormed.detach n
  size_eq := (size_detach g n).trans h.size_eq
  content_eq m := (content_detach g n m).trans (h.content_eq m)
  source_eq m := (source_detach g n m).trans (h.source_eq m)
  parent_eq m := by
    rw [parent_detach, h.parent_eq]
    by_cases hm : m = n <;> simp [hm]
  children_eq m := by
    rw [h.wellFormed.children_detach, h.children_eq, staying_concat (hf.nodup m)]

theorem declares_eq (h : Pruned f g out) (named : String → Bool) (n : NodeId) :
    g.declares named n = f.declares named n := by
  rw [declares, declares, h.content_eq]

/-- What is left below a node was there before. -/
theorem walk_subset (h : Pruned f g out) (hf : f.WellFormed) (n : NodeId) :
    g.walk n ⊆ f.walk n := by
  induction n using hf.walk_induction with
  | step n ih =>
    intro m hm
    rw [h.wellFormed.walk_eq, List.mem_flatMap] at hm
    obtain ⟨c, hc, hm⟩ := hm
    rw [h.children_eq] at hc
    have hc := List.mem_of_mem_filter hc
    rw [hf.walk_eq, List.mem_flatMap]
    refine ⟨c, hc, ?_⟩
    rcases List.mem_cons.1 hm with rfl | hm
    · exact List.mem_cons_self
    · exact List.mem_cons_of_mem c (ih c hc hm)

/-- Nothing that has been taken out is found again. -/
theorem not_mem_walk (h : Pruned f g out) (hn : n ∈ out) (root : NodeId) : n ∉ g.walk root := by
  intro hwalk
  obtain ⟨p, hp, -⟩ := h.wellFormed.exists_parent_of_mem_walk root n hwalk
  rw [h.parent_eq, if_pos hn] at hp
  exact absurd hp (by simp)

end Pruned

end Forest

namespace Edit

/-- What `Edit.walkDeclarationsWith` does at each node. -/
def atDeclaration (named : String → Bool) (visit : NodeId → Edit Unit) (n : NodeId) :
    Edit (List NodeId) := do
  if (← get).declares named n then
    visit n
    pure [n]
  else pure []

end Edit

namespace Forest

variable {f g s : Forest} {named : String → Bool} {n m p : NodeId} {ds : List NodeId}
  {copyOf : NodeId → NodeId}

theorem keepsAhead_remove (hf : f.WellFormed) (named : String → Bool) :
    KeepsAhead f (Edit.atDeclaration named Edit.remove) (fun n => [n].filter (f.declares named))
      (fun met s => Pruned f s (met.filter (f.declares named))) where
  visit_ok met s n p h _ _ := by
    rw [Edit.atDeclaration, get_bind, h.declares_eq, List.filter_append]
    by_cases hn : f.declares named n = true
    · rw [if_pos hn, List.filter_cons_of_pos hn]
      exact ⟨s.detach n, bind_of_ok (Edit.remove_of_wellFormed h.wellFormed n), h.detach hf n⟩
    · rw [if_neg hn, List.filter_cons_of_neg hn, List.filter_nil, List.append_nil]
      exact ⟨s, rfl, h⟩
  children_eq met s n p h hunmet _ := by
    rw [h.children_eq, staying_eq_self]
    exact fun k hk hmem => hunmet k hmem (List.mem_of_mem_filter hk)

/-! ## Copying what is met -/

/-- Whether a node of `g` looks like the node `n` of `f`; a node without children is copied by one
without children. -/
structure LooksLike (f g : Forest) (n m : NodeId) : Prop where
  content_eq : g.content m = f.content n
  source_eq : g.source m = f.source n
  children_eq : f.children n = [] → g.children m = []

/-- Whether `g` is `f` after a copy of each of the nodes `ds` has been put behind it. The copies are
new nodes. -/
structure Doubled (f g : Forest) (ds : List NodeId) (copyOf : NodeId → NodeId) : Prop where
  wellFormed : g.WellFormed
  size_le : f.size ≤ g.size
  content_eq : ∀ n < f.size, g.content n = f.content n
  source_eq : ∀ n < f.size, g.source n = f.source n
  parent_eq : ∀ n < f.size, g.parent n = f.parent n
  children_eq : ∀ n < f.size,
    g.children n = (f.children n).flatMap fun k => if k ∈ ds then [k, copyOf k] else [k]
  isNew : ∀ d ∈ ds, f.size ≤ copyOf d ∧ copyOf d < g.size
  looksLike : ∀ d ∈ ds, LooksLike f g d (copyOf d)

namespace LooksLike

theorem grow (h : LooksLike f g n m) (hgs : g.GrowsTo s) (hm : m < g.size) : LooksLike f s n m where
  content_eq := (hgs.content_eq hm).trans h.content_eq
  source_eq := (hgs.source_eq hm).trans h.source_eq
  children_eq hn := (hgs.children_eq hm).trans (h.children_eq hn)

theorem rearranged {σ : NodeId → List NodeId} (h : LooksLike f g n m) (hgs : Rearranged g s σ id) :
    LooksLike f s n m where
  content_eq := (hgs.content_eq m).trans h.content_eq
  source_eq := (hgs.source_eq m).trans h.source_eq
  children_eq hn := by rw [hgs.children_eq, h.children_eq hn, List.flatMap_nil]

end LooksLike

/-- Copying a node makes a new node that looks like it. -/
theorem copy_ok (hf : f.WellFormed) (hn : n < f.size) :
    ∃ m g, Edit.copy n f = .ok m g ∧ Made f g [m] ∧ LooksLike f g n m := by
  obtain ⟨fuel, hfuel⟩ := Nat.exists_eq_succ_of_ne_zero (Nat.ne_zero_of_lt hn)
  obtain ⟨ms, g, hms, hmade⟩ := Edit.mapM_made (Edit.copyFrom_ok fuel) (f.children n) f hf
  refine ⟨g.size, _, ?_, hmade.above (g.content n) (g.source n), ?_, ?_, ?_⟩
  · rw [Edit.copy, get_bind, hfuel, Edit.copyFrom, get_bind, bind_of_ok hms]
    rfl
  · rw [content_add, if_pos rfl, hmade.grows.content_eq hn]
  · rw [source_add, if_pos rfl, hmade.grows.source_eq hn]
  · intro hchildren
    rw [hchildren, List.mapM_nil, pure_eq_ok_iff] at hms
    rw [children_add, if_pos rfl, hms.1]

/-- A node that is replaced by itself, and by which no other node is, has the same parent. -/
theorem Rearranged.parent_eq {σ : NodeId → List NodeId} {ρ : NodeId → NodeId}
    (h : Rearranged f g σ ρ) (hf : f.WellFormed) (hn : ∀ k, n ∈ σ k ↔ k = n) :
    g.parent n = f.parent n := by
  refine Option.ext fun p => ?_
  rw [h.parent_iff, ← hf.listed_iff]
  simp [hn]

namespace Doubled

theorem refl (hf : f.WellFormed) (copyOf : NodeId → NodeId) : Doubled f f [] copyOf where
  wellFormed := hf
  size_le := Nat.le_refl _
  content_eq _ _ := rfl
  source_eq _ _ := rfl
  parent_eq _ _ := rfl
  children_eq n _ := (flatMap_eq_self fun k _ => if_neg (by simp)).symm
  isNew _ hd := absurd hd (by simp)
  looksLike _ hd := absurd hd (by simp)

theorem declares_eq (h : Doubled f g ds copyOf) (hn : n < f.size) (named : String → Bool) :
    g.declares named n = f.declares named n := by
  rw [declares, declares, h.content_eq n hn]

/-- A list of children in which nothing has been copied is as it was. -/
theorem children_eq_self (h : Doubled f g ds copyOf) (hn : n < f.size)
    (hds : ∀ k ∈ f.children n, k ∉ ds) : g.children n = f.children n := by
  rw [h.children_eq n hn]
  exact flatMap_eq_self fun k hk => if_neg (hds k hk)

/-- One more node is copied. -/
theorem copyBehind (h : Doubled f g ds copyOf) (hf : f.WellFormed) (hp : f.parent n = some p)
    (hn : n ∉ ds) :
    ∃ t copyOf', Edit.copyBehind n g = .ok () t ∧ Doubled f t (ds ++ [n]) copyOf' := by
  have hlt := lt_size_of_parent hp
  obtain ⟨m, g', hcopy, hmade, hlooks⟩ :=
    copy_ok h.wellFormed (Nat.lt_of_lt_of_le hlt h.size_le)
  obtain ⟨hnew, hm⟩ := hmade.fresh m (List.mem_singleton_self m)
  have hgrow : ∀ k < f.size, k < g.size := fun k hk => Nat.lt_of_lt_of_le hk h.size_le
  have hparent : ∀ k < f.size, g'.parent k = f.parent k := fun k hk =>
    (hmade.grows.parent_eq (hgrow k hk)).trans (h.parent_eq k hk)
  have hp' : g'.parent n = some p := (hparent n hlt).trans hp
  have hnot : ¬ g'.IsAbove m p :=
    (h.wellFormed.closedBelow hmade.grows).not_isAbove (hgrow p (hf.parent_lt_size hp)) hnew
  obtain ⟨t, hrun, ht⟩ :=
    Edit.insertAfter_ok hmade.wellFormed hp' hm (hmade.detached m (List.mem_singleton_self m)) hnot
  refine ⟨t, fun k => if k = n then m else copyOf k, ?_, ?_⟩
  · rw [Edit.copyBehind, bind_of_ok hcopy, get_bind, hp']
    exact hrun
  constructor
  case wellFormed => exact ht.wellFormed
  case size_le => exact h.size_le.trans (hmade.grows.size_le.trans (Nat.le_of_eq ht.size_eq.symm))
  case content_eq =>
    intro k hk
    rw [ht.content_eq, hmade.grows.content_eq (hgrow k hk), h.content_eq k hk]
  case source_eq =>
    intro k hk
    rw [ht.source_eq, id, hmade.grows.source_eq (hgrow k hk), h.source_eq k hk]
  case parent_eq =>
    intro k hk
    have hkm : k ≠ m := Nat.ne_of_lt (Nat.lt_of_lt_of_le (hgrow k hk) hnew)
    rw [ht.parent_eq hmade.wellFormed, hparent k hk]
    intro j
    by_cases hj : j = n <;> simp [hj, hkm, eq_comm]
  case children_eq =>
    intro k hk
    rw [ht.children_eq, hmade.grows.children_eq (hgrow k hk), h.children_eq k hk,
      List.flatMap_assoc]
    refine List.flatMap_congr fun j _ => ?_
    by_cases hjn : j = n
    · simp [hjn, hn]
    · by_cases hj : j ∈ ds
      · -- a copy that is there is not copied
        have hne : copyOf j ≠ n :=
          Nat.ne_of_gt (Nat.lt_of_lt_of_le hlt (h.isNew j hj).1)
        simp [hjn, hj, hne]
      · simp [hjn, hj]
  case isNew =>
    intro d hd
    rw [ht.size_eq]
    by_cases hdn : d = n
    · rw [if_pos hdn]
      exact ⟨h.size_le.trans hnew, hm⟩
    · rw [if_neg hdn]
      obtain ⟨hle, hlt⟩ := h.isNew d (by simpa [hdn] using hd)
      exact ⟨hle, Nat.lt_of_lt_of_le hlt hmade.grows.size_le⟩
  case looksLike =>
    intro d hd
    refine LooksLike.rearranged ?_ ht
    by_cases hdn : d = n
    · rw [if_pos hdn, hdn]
      refine ⟨?_, ?_, fun hchildren => hlooks.children_eq ?_⟩
      · rw [hlooks.content_eq, h.content_eq n hlt]
      · rw [hlooks.source_eq, h.source_eq n hlt]
      · rw [h.children_eq n hlt, hchildren, List.flatMap_nil]
    · rw [if_neg hdn]
      have hd : d ∈ ds := by simpa [hdn] using hd
      exact (h.looksLike d hd).grow hmade.grows (h.isNew d hd).2

end Doubled

theorem keepsAhead_copyBehind (hf : f.WellFormed) (named : String → Bool) :
    KeepsAhead f (Edit.atDeclaration named Edit.copyBehind)
      (fun n => [n].filter (f.declares named))
      (fun met s => ∃ copyOf, Doubled f s (met.filter (f.declares named)) copyOf) where
  visit_ok met s n p h hunmet hp := by
    obtain ⟨copyOf, h⟩ := h
    rw [Edit.atDeclaration, get_bind, h.declares_eq (lt_size_of_parent hp), List.filter_append]
    by_cases hn : f.declares named n = true
    · rw [if_pos hn, List.filter_cons_of_pos hn, List.filter_nil]
      have hnew : n ∉ met.filter (f.declares named) := fun hmem =>
        hunmet (List.mem_of_mem_filter hmem)
      obtain ⟨t, copyOf', hrun, ht⟩ := h.copyBehind hf hp hnew
      exact ⟨t, bind_of_ok hrun, copyOf', ht⟩
    · rw [if_neg hn, List.filter_cons_of_neg hn, List.filter_nil, List.append_nil]
      exact ⟨s, rfl, copyOf, h⟩
  children_eq met s n p h hunmet hp := by
    obtain ⟨copyOf, h⟩ := h
    exact h.children_eq_self (lt_size_of_parent hp) fun k hk hmem =>
      hunmet k hk (List.mem_of_mem_filter hmem)

/-! ## Both walks -/

theorem flatMap_filter_singleton {α : Type} (q : α → Bool) (xs : List α) :
    (xs.flatMap fun x => [x].filter q) = xs.filter q := by
  rw [← List.filter_flatMap, List.flatMap_singleton']

/-- **A walk through declarations may change what it walks through.** Whether each declaration that
is met is taken out or a copy of it is put behind it, the declarations met are those that were there
when the walk began, each once, depth first in document order; no copy is met. If they are taken
out, none of them is left, and all other nodes keep their place. If they are copied, each list of
children is the old one with each of them followed by its copy. -/
theorem walkDeclarationsWith_remove_and_copyBehind (hf : f.WellFormed) (named : String → Bool)
    (root : NodeId) :
    (f.declarationsBelow named root).Nodup ∧
      (∃ g, Edit.walkDeclarationsWith named Edit.remove root f =
          .ok (f.declarationsBelow named root) g ∧
        Pruned f g (f.declarationsBelow named root) ∧ g.declarationsBelow named root = []) ∧
      ∃ g copyOf, Edit.walkDeclarationsWith named Edit.copyBehind root f =
          .ok (f.declarationsBelow named root) g ∧
        Doubled f g (f.declarationsBelow named root) copyOf := by
  refine ⟨(hf.nodup_walk root).filter _, ?_, ?_⟩
  · obtain ⟨g, hrun, hg⟩ := (keepsAhead_remove hf named).walkWith_ok hf (.refl hf) root
    rw [flatMap_filter_singleton] at hrun
    refine ⟨g, hrun, hg, ?_⟩
    refine List.filter_eq_nil_iff.2 fun d hd hdeclares => ?_
    rw [hg.declares_eq] at hdeclares
    have hout : d ∈ (f.walk root).filter (f.declares named) :=
      List.mem_filter.2 ⟨hg.walk_subset hf root hd, hdeclares⟩
    exact hg.not_mem_walk hout root hd
  · obtain ⟨g, hrun, copyOf, hg⟩ :=
      (keepsAhead_copyBehind hf named).walkWith_ok hf ⟨id, .refl hf id⟩ root
    rw [flatMap_filter_singleton] at hrun
    exact ⟨g, copyOf, hrun, hg⟩

/-- The store of a sheet with a rule and a media block, in which a declaration and another rule
stand. The rules are `2` and `6`, the block is `7`, and the top is `8`. -/
def nestedSizes : Forest :=
  let sheet : Sheet :=
    ⟨[.rule ".a" none [.declaration "size" "1" none, .declaration "color" "red" none],
      .atBlock "media" "print" none [.declaration "size" "2" none,
        .rule ".b" none [.declaration "size" "3" none, .declaration "size" "4" none]]], none, none⟩
  (sheet.store .empty).2

/-- Sizes that stand next to each other, and at three levels. -/
theorem walkDeclarationsWith_remove_and_copyBehind_nestedSizes :
    ∃ (g h : Forest) (copyOf : NodeId → NodeId),
      Edit.walkDeclarationsWith (· == "size") Edit.remove 8 nestedSizes = .ok [0, 3, 4, 5] g ∧
      g.children 2 = [1] ∧ g.children 7 = [6] ∧ g.children 6 = [] ∧
      Edit.walkDeclarationsWith (· == "size") Edit.copyBehind 8 nestedSizes = .ok [0, 3, 4, 5] h ∧
      h.children 2 = [0, copyOf 0, 1] ∧ h.children 7 = [3, copyOf 3, 6] ∧
      h.children 6 = [4, copyOf 4, 5, copyOf 5] ∧
      h.content (copyOf 5) = .declaration "size" "4" := by
  have hf : nestedSizes.WellFormed := (Sheet.store_ok wellFormed_empty _).1
  have hmet : nestedSizes.declarationsBelow (· == "size") 8 = [0, 3, 4, 5] := by decide
  obtain ⟨-, ⟨g, hremove, hg, -⟩, h, copyOf, hcopy, hh⟩ :=
    walkDeclarationsWith_remove_and_copyBehind hf (· == "size") 8
  rw [hmet] at hremove hg hcopy hh
  exact ⟨g, h, copyOf, hremove, hg.children_eq 2, hg.children_eq 7, hg.children_eq 6, hcopy,
    hh.children_eq 2 (by decide), hh.children_eq 7 (by decide), hh.children_eq 6 (by decide),
    (hh.looksLike 5 (by decide)).content_eq⟩

end Forest

end FluidCss
