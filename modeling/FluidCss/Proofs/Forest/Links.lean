import FluidCss.Forest.Edit
import FluidCss.Proofs.Computation
import Mathlib.Data.List.Nodup
import Mathlib.Logic.Relation

set_option autoImplicit false

/-! # Links of a well-formed store

The two elementary rearrangements, taking a node out of its parent (`detach`) and putting a node at
a place of a container (`putAt`), as functions on stores. On well-formed stores the operations of
`Edit` are made of them, each keeps the links in agreement, and each is known by what it does to
the lists of children and to the parents. -/

namespace FluidCss

namespace Forest

variable {f : Forest} {n m : NodeId}

theorem cell_of_size_le (h : f.size ≤ n) : f.cell n = Cell.absent := by
  rw [cell, Array.getElem?_eq_none h, Option.getD_none]

theorem lt_size_of_parent {p : NodeId} (h : f.parent n = some p) : n < f.size := by
  by_contra hn
  rw [parent, cell_of_size_le (Nat.le_of_not_lt hn)] at h
  exact absurd h (by simp [Cell.absent])

theorem lt_size_of_mem_children (h : n ∈ f.children m) : m < f.size := by
  by_contra hm
  rw [children, cell_of_size_le (Nat.le_of_not_lt hm)] at h
  exact absurd h (by simp [Cell.absent])

namespace WellFormed

theorem mem_children (h : f.WellFormed) {p : NodeId} (hp : f.parent n = some p) :
    n ∈ f.children p :=
  (h.listed_iff n p).2 hp

theorem parent_of_mem (h : f.WellFormed) (hn : n ∈ f.children m) : f.parent n = some m :=
  (h.listed_iff n m).1 hn

/-- The parent of a node is a node of the store. -/
theorem parent_lt_size (h : f.WellFormed) {p : NodeId} (hp : f.parent n = some p) : p < f.size :=
  lt_size_of_mem_children (h.mem_children hp)

theorem child_lt_size (h : f.WellFormed) (hn : n ∈ f.children m) : n < f.size :=
  lt_size_of_parent (h.parent_of_mem hn)

/-- A node stands in one container at most. -/
theorem eq_of_mem_children (h : f.WellFormed) {c d : NodeId} (hc : n ∈ f.children c)
    (hd : n ∈ f.children d) : c = d := by
  have hp := h.parent_of_mem hc
  rw [h.parent_of_mem hd] at hp
  exact (Option.some.inj hp).symm

end WellFormed

/-! ## Chains of parents -/

/-- Whether `a` is `n` or stands above it. -/
def IsAbove (f : Forest) (a n : NodeId) : Prop :=
  Relation.ReflTransGen (fun k p => f.parent k = some p) n a

theorem IsAbove.refl (f : Forest) (n : NodeId) : f.IsAbove n n := Relation.ReflTransGen.refl

theorem IsAbove.parent {a p : NodeId} (hp : f.parent n = some p) (h : f.IsAbove a p) :
    f.IsAbove a n :=
  Relation.ReflTransGen.head hp h

/-- Above a node are the node and what is above its parent. -/
theorem isAbove_iff {a : NodeId} :
    f.IsAbove a n ↔ a = n ∨ ∃ p, f.parent n = some p ∧ f.IsAbove a p := by
  constructor
  · intro h
    rcases Relation.ReflTransGen.cases_head h with rfl | ⟨p, hp, hap⟩
    · exact .inl rfl
    · exact .inr ⟨p, hp, hap⟩
  · rintro (rfl | ⟨p, hp, hap⟩)
    · exact .refl f a
    · exact .parent hp hap

theorem not_isAbove_of_parent {a : NodeId} (hne : a ≠ n)
    (h : ∀ p, f.parent n = some p → ¬ f.IsAbove a p) : ¬ f.IsAbove a n := by
  rw [isAbove_iff]
  rintro (heq | ⟨p, hp, habove⟩)
  · exact hne heq
  · exact h p hp habove

/-! ## Taking a node out -/

/-- The store in which a node has been taken out of its parent, if it has one. -/
def detach (f : Forest) (n : NodeId) : Forest :=
  match f.parent n with
  | some p => (f.setChildren p ((f.children p).erase n)).setParent n none
  | none => f

theorem detach_of_detached (h : f.parent n = none) : f.detach n = f := by
  rw [detach, h]

@[simp]
theorem size_detach (f : Forest) (n : NodeId) : (f.detach n).size = f.size := by
  unfold detach
  split <;> simp

@[simp]
theorem content_detach (f : Forest) (n m : NodeId) : (f.detach n).content m = f.content m := by
  unfold detach
  split <;> simp

@[simp]
theorem source_detach (f : Forest) (n m : NodeId) : (f.detach n).source m = f.source m := by
  unfold detach
  split <;> simp

theorem parent_detach (f : Forest) (n m : NodeId) :
    (f.detach n).parent m = if m = n then none else f.parent m := by
  unfold detach
  split
  · next p hp =>
    have hn : n < f.size := lt_size_of_parent hp
    rw [parent_setParent, parent_setChildren, size_setChildren]
    by_cases h : m = n
    · rw [if_pos ⟨h.symm, hn⟩, if_pos h]
    · rw [if_neg (fun hm => h hm.1.symm), if_neg h]
  · next hp =>
    by_cases h : m = n
    · rw [if_pos h, h, hp]
    · rw [if_neg h]

/-- Nothing but the node itself leaves a list of children. -/
theorem WellFormed.children_detach (h : f.WellFormed) (n m : NodeId) :
    (f.detach n).children m = (f.children m).erase n := by
  unfold detach
  split
  · next p hp =>
    have hmem := h.mem_children hp
    rw [children_setParent, children_setChildren]
    by_cases hm : p = m
    · subst hm
      rw [if_pos ⟨rfl, lt_size_of_mem_children hmem⟩]
    · rw [if_neg (fun hpm => hm hpm.1), List.erase_of_not_mem]
      exact fun hn => hm (h.eq_of_mem_children hmem hn)
  · next hp =>
    rw [List.erase_of_not_mem]
    intro hn
    rw [h.parent_of_mem hn] at hp
    exact absurd hp (by simp)

theorem WellFormed.detach (h : f.WellFormed) (n : NodeId) : (f.detach n).WellFormed where
  listed_iff k p := by
    rw [h.children_detach, parent_detach, (h.nodup p).mem_erase_iff, h.listed_iff]
    by_cases hk : k = n <;> simp [hk]
  nodup p := by
    rw [h.children_detach]
    exact (h.nodup p).erase n
  acyclic := by
    obtain ⟨rank, hrank⟩ := h.acyclic
    refine ⟨rank, fun k p hp => ?_⟩
    rw [parent_detach] at hp
    by_cases hk : k = n
    · exact absurd hp (by simp [hk])
    · rw [if_neg hk] at hp
      exact hrank k p hp

/-! ## Putting a node in -/

/-- The store in which a node has been taken out of its parent and put at a place of a container,
where places count in the list without the node. -/
def putAt (f : Forest) (c : NodeId) (place : Nat) (n : NodeId) : Forest :=
  let g := (f.detach n).setParent n (some c)
  g.setChildren c (insertAt place n (g.children c))

@[simp]
theorem size_putAt (f : Forest) (c : NodeId) (place : Nat) (n : NodeId) :
    (f.putAt c place n).size = f.size := by simp [putAt]

@[simp]
theorem content_putAt (f : Forest) (c : NodeId) (place : Nat) (n m : NodeId) :
    (f.putAt c place n).content m = f.content m := by simp [putAt]

@[simp]
theorem source_putAt (f : Forest) (c : NodeId) (place : Nat) (n m : NodeId) :
    (f.putAt c place n).source m = f.source m := by simp [putAt]

theorem parent_putAt {c : NodeId} (place : Nat) (hn : n < f.size) (m : NodeId) :
    (f.putAt c place n).parent m = if m = n then some c else f.parent m := by
  rw [putAt, parent_setChildren, parent_setParent, parent_detach, size_detach]
  by_cases h : m = n
  · rw [if_pos ⟨h.symm, hn⟩, if_pos h]
  · rw [if_neg (fun hm => h hm.1.symm), if_neg h, if_neg h]

theorem WellFormed.children_putAt (h : f.WellFormed) {c : NodeId} (place : Nat) (hc : c < f.size)
    (m : NodeId) : (f.putAt c place n).children m =
      if c = m then insertAt place n ((f.children m).erase n) else (f.children m).erase n := by
  rw [putAt, children_setChildren, children_setParent, h.children_detach, children_setParent,
    h.children_detach, size_setParent, size_detach]
  by_cases hm : c = m
  · subst hm
    rw [if_pos ⟨rfl, hc⟩, if_pos rfl]
  · rw [if_neg (fun hcm => hm hcm.1), if_neg hm]

end Forest

theorem idxOf?_eq_some_idxOf {α : Type} [BEq α] [LawfulBEq α] {x : α} {xs : List α}
    (h : x ∈ xs) : xs.idxOf? x = some (xs.idxOf x) := by
  induction xs with
  | nil => exact absurd h (by simp)
  | cons y ys ih =>
    rw [List.idxOf?_cons, List.idxOf_cons]
    by_cases hy : y = x
    · simp [hy]
    · rw [if_neg (by simpa using hy), ih (List.mem_of_ne_of_mem (Ne.symm hy) h)]
      simp [cond_eq_ite, hy]

theorem mem_insertAt {α : Type} {place : Nat} {x y : α} {xs : List α} :
    y ∈ insertAt place x xs ↔ y = x ∨ y ∈ xs := by
  conv_rhs => rw [← List.take_append_drop place xs]
  simp only [insertAt, List.mem_append, List.mem_cons]
  grind

theorem nodup_insertAt {α : Type} {place : Nat} {x : α} {xs : List α} (h : xs.Nodup)
    (hx : x ∉ xs) : (insertAt place x xs).Nodup := by
  rw [← List.take_append_drop place xs] at h hx
  rw [insertAt, List.nodup_middle, List.nodup_cons]
  exact ⟨hx, h⟩

namespace Forest

variable {f : Forest} {n m : NodeId}

/-- **A node may be put into any container that it is not and does not stand above of.** -/
theorem WellFormed.putAt (h : f.WellFormed) {c : NodeId} (place : Nat) (hn : n < f.size)
    (hc : c < f.size) (hnot : ¬ f.IsAbove n c) : (f.putAt c place n).WellFormed where
  listed_iff k p := by
    rw [h.children_putAt place hc, parent_putAt place hn]
    have herase : k ∈ (f.children p).erase n ↔ k ≠ n ∧ f.parent k = some p := by
      rw [(h.nodup p).mem_erase_iff, h.listed_iff]
    by_cases hp : c = p
    · rw [if_pos hp, mem_insertAt, herase]
      by_cases hk : k = n <;> simp [hk, hp]
    · rw [if_neg hp, herase]
      by_cases hk : k = n <;> simp [hk, hp]
  nodup p := by
    rw [h.children_putAt place hc]
    have herase := (h.nodup p).erase n
    split
    · refine nodup_insertAt herase ?_
      intro hmem
      exact ((h.nodup p).mem_erase_iff.1 hmem).1 rfl
    · exact herase
  acyclic := by
    classical
    obtain ⟨rank, hrank⟩ := h.acyclic
    -- whatever does not stand below the node is lifted above all that does
    refine ⟨fun k => if f.IsAbove n k then rank k else rank k + rank n + 1, fun k p hp => ?_⟩
    rw [parent_putAt place hn] at hp
    by_cases hk : k = n
    · rw [if_pos hk] at hp
      obtain rfl := Option.some.inj hp
      simp only [hk, if_pos (IsAbove.refl f n), if_neg hnot]
      omega
    · rw [if_neg hk] at hp
      have hlt := hrank k p hp
      -- a node whose parent has not changed is lifted exactly if its parent is
      have hiff : f.IsAbove n k ↔ f.IsAbove n p := by
        rw [isAbove_iff]
        constructor
        · rintro (rfl | ⟨p', hp', habove⟩)
          · exact absurd rfl hk
          · rw [hp] at hp'
            obtain rfl := Option.some.inj hp'
            exact habove
        · exact fun habove => .inr ⟨p, hp, habove⟩
      simp only [hiff]
      split <;> omega

/-- What stands above a container stays when a node is put into it. -/
theorem isAbove_of_putAt {c : NodeId} {place : Nat} (hn : n < f.size) (hnot : ¬ f.IsAbove n c)
    (h : (f.putAt c place n).IsAbove m c) : f.IsAbove m c := by
  induction h with
  | refl => exact .refl f c
  | @tail k p _ hp ih =>
    rw [parent_putAt place hn] at hp
    by_cases hk : k = n
    · -- the chain that starts at the container does not pass the node that has been moved
      rw [hk] at ih
      exact absurd ih hnot
    · rw [if_neg hk] at hp
      exact ih.tail hp

end Forest

/-! ## The operations -/

namespace Edit

open Forest

variable {f : Forest} {c n : NodeId}

theorem indexOf_of_mem (h : n ∈ f.children c) :
    indexOf c n f = .ok ((f.children c).idxOf n) f := by
  rw [indexOf, get_bind, idxOf?_eq_some_idxOf h]
  rfl

/-- A node that is not listed has no place. -/
theorem indexOf_of_not_mem (h : n ∉ f.children c) :
    indexOf c n f = .error (.notAChild (f.describe n)) f := by
  rw [indexOf, get_bind, List.idxOf?_eq_none_iff.2 h]
  rfl

theorem removeChild_of_parent (h : f.WellFormed) (hp : f.parent n = some c) :
    removeChild c n f = .ok () (f.detach n) := by
  have hmem := h.mem_children hp
  rw [removeChild, bind_of_ok (indexOf_of_mem hmem), Forest.detach, hp]
  simp only [List.erase_eq_eraseIdx_of_idxOf rfl]
  rfl

/-- Taking a node out never fails. -/
theorem remove_of_wellFormed (h : f.WellFormed) (n : NodeId) :
    remove n f = .ok () (f.detach n) := by
  rw [remove, get_bind]
  cases hp : f.parent n with
  | none => rw [detach_of_detached hp]; rfl
  | some p => exact removeChild_of_parent h hp

theorem adopt_of_wellFormed (h : f.WellFormed) (c n : NodeId) :
    adopt c n f = .ok () ((f.detach n).setParent n (some c)) := by
  rw [adopt, bind_of_ok (remove_of_wellFormed h n)]
  rfl

theorem insertFrom_cons (h : f.WellFormed) (place : Nat) (rest : List NodeId) :
    insertFrom c place (n :: rest) f = insertFrom c (place + 1) rest (f.putAt c place n) := by
  rw [insertFrom, bind_of_ok (adopt_of_wellFormed h c n)]
  rfl

/-- To append a node is to put it behind all other children. -/
theorem append_cons (h : f.WellFormed) (rest : List NodeId) :
    append c (n :: rest) f =
      append c rest (f.putAt c ((f.detach n).children c).length n) := by
  have hplace : insertAt ((f.detach n).children c).length n ((f.detach n).children c) =
      (f.detach n).children c ++ [n] := by
    rw [insertAt, List.take_length, List.drop_length]
  rw [append, bind_of_ok (adopt_of_wellFormed h c n), putAt, children_setParent, hplace]
  exact bind_of_ok (by rw [← children_setParent (f.detach n) n c (some c)]; rfl)

end Edit

end FluidCss
