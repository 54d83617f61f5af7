import FluidCss.Proofs.Sizing.Sheets

set_option autoImplicit false

/-! # Runs of operations

What a caller can do to nodes is to make, copy and move them, by the operations below. Starting
without nodes, or with sheets that have been read, the nodes stay a forest whatever is done in
whatever order, as long as no node is put below itself. Only the operations that are told a place
among other nodes can fail, and an operation that fails has changed nothing. -/

namespace FluidCss

/-- What a caller can do to the nodes of a store. -/
inductive Operation where
  /-- Makes a node that lists the given nodes. -/
  | make (content : Content) (source : Option Position) (nodes : List NodeId)
  /-- Copies a node with all its descendants; the copy of the node itself has other fields. -/
  | clone (n : NodeId) (change : Content → Content) (source : Option (Option Position))
  | append (container : NodeId) (nodes : List NodeId)
  | insertAfter (container child : NodeId) (nodes : List NodeId)
  | replaceWith (n : NodeId) (nodes : List NodeId)
  | remove (n : NodeId)
  | removeChild (container child : NodeId)
  | indexOf (container child : NodeId)

namespace Operation

/-- What an operation does to a store. -/
def run : Operation → Edit Unit
  | make content source nodes => do
    let _ ← Edit.create content source nodes
  | clone n change source => do
    let _ ← Edit.copyWith n { content := change, source := source }
  | append container nodes => Edit.append container nodes
  | insertAfter container child nodes => Edit.insertAfter container child nodes
  | replaceWith n nodes => Edit.replaceWith n nodes
  | remove n => Edit.remove n
  | removeChild container child => Edit.removeChild container child
  | indexOf container child => do
    let _ ← Edit.indexOf container child

/-- Whether nodes of the store may be put into a container: none of them is the container or stands
above it. -/
structure IsMovable (f : Forest) (nodes : List NodeId) (container : NodeId) : Prop where
  container_lt_size : container < f.size
  lt_size : ∀ n ∈ nodes, n < f.size
  not_isAbove : ∀ n ∈ nodes, ¬ f.IsAbove n container

/-- Whether an operation is about nodes that exist, moves none of them below itself, and makes nodes
of distinct detached ones only. -/
def IsAllowed (f : Forest) : Operation → Prop
  | make _ _ nodes => nodes.Nodup ∧ ∀ n ∈ nodes, n < f.size ∧ f.parent n = none
  | clone n _ _ => n < f.size
  | append container nodes => IsMovable f nodes container
  | insertAfter container child nodes => child < f.size ∧ IsMovable f nodes container
  | replaceWith n nodes => n < f.size ∧ (∀ m ∈ nodes, m < f.size) ∧
      ∀ container, f.parent n = some container → IsMovable f nodes container
  | remove n => n < f.size
  | removeChild container child => container < f.size ∧ child < f.size
  | indexOf container child => container < f.size ∧ child < f.size

/-- Why an operation fails, if it does: the node that marks a place is not where it is said to be,
or the node to be replaced is nowhere. -/
def failure? (f : Forest) : Operation → Option EditError
  | insertAfter container child _ | removeChild container child | indexOf container child =>
    if child ∈ f.children container then none else some (.notAChild (f.describe child))
  | replaceWith n _ => if f.parent n = none then some .noParent else none
  | make .. | clone .. | append .. | remove .. => none

end Operation

/-- The stores that a caller can reach. An operation that fails leaves the store that it has
reached, and the run goes on from there. -/
inductive Forest.Reachable : Forest → Prop
  | empty : Reachable .empty
  | read {f : Forest} {css : String} {name : Option String} {sheet : Sheet} (hf : Reachable f)
      (hsheet : Sheet.parse css name = .ok sheet) : Reachable (sheet.store f).2
  | operate {f : Forest} {op : Operation} (hf : Reachable f) (hop : op.IsAllowed f) :
      Reachable (finalState (op.run f))

namespace Operation

open Forest

variable {f g : Forest} {n c x : NodeId} {ns : List NodeId}

/-! ## Moving several nodes -/

namespace IsMovable

/-- What may be put into a container may still be put there when one of the nodes has been. -/
theorem putAt (h : IsMovable f (n :: ns) c) (place : Nat) :
    IsMovable (f.putAt c place n) ns c where
  container_lt_size := by
    rw [size_putAt]
    exact h.container_lt_size
  lt_size m hm := by
    rw [size_putAt]
    exact h.lt_size m (List.mem_cons_of_mem n hm)
  not_isAbove m hm habove :=
    h.not_isAbove m (List.mem_cons_of_mem n hm) (isAbove_of_putAt (h.lt_size n List.mem_cons_self)
      (h.not_isAbove n List.mem_cons_self) habove)

theorem wellFormed_putAt (h : IsMovable f (n :: ns) c) (hf : f.WellFormed) (place : Nat) :
    (f.putAt c place n).WellFormed :=
  hf.putAt place (h.lt_size n List.mem_cons_self) h.container_lt_size
    (h.not_isAbove n List.mem_cons_self)

theorem insertFrom_ok (h : IsMovable f ns c) (hf : f.WellFormed) (place : Nat) :
    ∃ g, Edit.insertFrom c place ns f = .ok () g ∧ g.WellFormed := by
  induction ns generalizing f place with
  | nil => exact ⟨f, rfl, hf⟩
  | cons n ns ih =>
    rw [Edit.insertFrom_cons hf]
    exact ih (h.putAt place) (h.wellFormed_putAt hf place) (place + 1)

theorem append_ok (h : IsMovable f ns c) (hf : f.WellFormed) :
    ∃ g, Edit.append c ns f = .ok () g ∧ g.WellFormed := by
  induction ns generalizing f with
  | nil => exact ⟨f, rfl, hf⟩
  | cons n ns ih =>
    rw [Edit.append_cons hf]
    exact ih (h.putAt _) (h.wellFormed_putAt hf _)

end IsMovable

/-! ## What an operation does -/

theorem insertAfter_ok (h : IsMovable f ns c) (hf : f.WellFormed) (hx : x ∈ f.children c) :
    ∃ g, Edit.insertAfter c x ns f = .ok () g ∧ g.WellFormed := by
  rw [Edit.insertAfter, bind_of_ok (Edit.indexOf_of_mem hx)]
  exact h.insertFrom_ok hf _

/-- **An operation fails for the reason that is given, and then changes nothing, or it leaves links
that agree.** -/
theorem run_ok {op : Operation} (hf : f.WellFormed) (hop : op.IsAllowed f) :
    (∃ e, op.failure? f = some e ∧ op.run f = .error e f) ∨
      op.failure? f = none ∧ ∃ g, op.run f = .ok () g ∧ g.WellFormed := by
  cases op with
  | make content source nodes =>
    exact .inr ⟨rfl, _, rfl, hf.add content source (fun n hn => (hop.2 n hn).1) hop.1
      fun n hn => (hop.2 n hn).2⟩
  | clone n change source =>
    obtain ⟨id, g, hg, hmade⟩ := Edit.copyWith_ok hf n change source
    exact .inr ⟨rfl, g, bind_of_ok hg, hmade.wellFormed⟩
  | append container nodes => exact .inr ⟨rfl, hop.append_ok hf⟩
  | insertAfter container child nodes =>
    by_cases hx : child ∈ f.children container
    · exact .inr ⟨if_pos hx, insertAfter_ok hop.2 hf hx⟩
    · exact .inl ⟨_, if_neg hx, bind_of_error (Edit.indexOf_of_not_mem hx)⟩
  | replaceWith n nodes =>
    cases hp : f.parent n with
    | none =>
      refine .inl ⟨.noParent, if_pos hp, ?_⟩
      rw [run, Edit.replaceWith, get_bind, hp]
      rfl
    | some p =>
      obtain ⟨g, hg, hwell⟩ := insertAfter_ok (hop.2.2 p hp) hf (hf.mem_children hp)
      refine .inr ⟨if_neg (by simp [hp]), g.detach n, ?_, hwell.detach n⟩
      rw [run, Edit.replaceWith, get_bind, hp]
      exact (bind_of_ok hg).trans (Edit.remove_of_wellFormed hwell n)
  | remove n => exact .inr ⟨rfl, _, Edit.remove_of_wellFormed hf n, hf.detach n⟩
  | removeChild container child =>
    by_cases hx : child ∈ f.children container
    · exact .inr ⟨if_pos hx, _, Edit.removeChild_of_parent hf (hf.parent_of_mem hx),
        hf.detach child⟩
    · exact .inl ⟨_, if_neg hx, bind_of_error (Edit.indexOf_of_not_mem hx)⟩
  | indexOf container child =>
    by_cases hx : child ∈ f.children container
    · exact .inr ⟨if_pos hx, f, bind_of_ok (Edit.indexOf_of_mem hx), hf⟩
    · exact .inl ⟨_, if_neg hx, bind_of_error (Edit.indexOf_of_not_mem hx)⟩

theorem wellFormed_finalState {op : Operation} (hf : f.WellFormed) (hop : op.IsAllowed f) :
    (finalState (op.run f)).WellFormed := by
  rcases run_ok hf hop with ⟨e, -, hrun⟩ | ⟨-, g, hrun, hg⟩
  · rw [hrun]
    exact hf
  · rw [hrun]
    exact hg

end Operation

namespace Forest

variable {f : Forest}

/-- **The links of every store that a caller can reach agree.** -/
theorem Reachable.wellFormed (h : f.Reachable) : f.WellFormed := by
  induction h with
  | empty => exact wellFormed_empty
  | read _ _ ih => exact (Sheet.store_ok ih _).1
  | operate _ hop ih => exact Operation.wellFormed_finalState ih hop

/-- Chains of parents do not come back to their start. -/
theorem WellFormed.not_transGen (hf : f.WellFormed) (n : NodeId) :
    ¬ Relation.TransGen (fun k p => f.parent k = some p) n n := by
  obtain ⟨rank, hrank⟩ := hf.acyclic
  have hlt : ∀ m, Relation.TransGen (fun k p => f.parent k = some p) n m → rank n < rank m := by
    intro m hm
    induction hm with
    | single hp => exact hrank _ _ hp
    | tail _ hp ih => exact ih.trans (hrank _ _ hp)
  exact fun h => absurd (hlt n h) (Nat.lt_irrefl _)

/-- **Nodes stay a forest, whatever a caller does.** In every store that is reached without putting
a node below itself, the children that a container lists are the nodes whose parent it is, each of
them once and listed by no other container, and no chain of parents comes back to its start. An
operation on such a store fails exactly if `Operation.failure?` gives the reason, and then it leaves
the store as it was. -/
theorem isForest_of_reachable (h : f.Reachable) :
    (∀ n c, n ∈ f.children c ↔ f.parent n = some c) ∧
      (∀ n c, n ∈ f.children c →
        (f.children c).count n = 1 ∧ ∀ d, n ∈ f.children d → d = c) ∧
      (∀ n, ¬ Relation.TransGen (fun k p => f.parent k = some p) n n) ∧
      ∀ op : Operation, op.IsAllowed f → ∀ e g,
        op.run f = .error e g ↔ op.failure? f = some e ∧ g = f := by
  have hf := h.wellFormed
  refine ⟨hf.listed_iff, fun n c hn => ⟨?_, fun d hd => hf.eq_of_mem_children hd hn⟩,
    hf.not_transGen, fun op hop e g => ?_⟩
  · exact List.count_eq_one_of_mem (hf.nodup c) hn
  · rcases Operation.run_ok hf hop with ⟨e', hfailure, hrun⟩ | ⟨hfailure, g', hrun, -⟩
    · rw [hrun, hfailure, EStateM.Result.error.injEq, Option.some.injEq]
      exact and_congr_right fun _ => eq_comm
    · rw [hrun, hfailure]
      simp

/-- A sheet of one rule. -/
def oneRule : Sheet :=
  ⟨[.rule ".a" (some ⟨1, 1⟩)
      [.declaration "b" "c" (some ⟨1, 4⟩), .declaration "d" "e" (some ⟨1, 8⟩)]],
    some ".a\x7bb:c;d:e\x7d", none⟩

/-- The store of that sheet, in which the rule `2` has been copied and the copy `6` has been put at
the end of the sheet `3`. -/
def copiedRule : Forest :=
  finalState ((Operation.append 3 [6]).run
    (finalState ((Operation.clone 2 id none).run (oneRule.store .empty).2)))

/-- A declaration that is moved to the copy twice is there once, and the rule that it has left does
not find it. -/
theorem isForest_of_reachable_copiedRule :
    ∃ f : Forest, f.Reachable ∧ f.children 2 = [1] ∧ f.children 6 = [4, 5, 0] ∧
      (f.children 6).count 0 = 1 ∧
      (Operation.indexOf 2 0).run f = .error (.notAChild (f.describe 0)) f := by
  have hread : Reachable (oneRule.store .empty).2 := by
    obtain ⟨sheet, hparse, hcells⟩ : ∃ sheet, Sheet.parse ".a\x7bb:c;d:e\x7d" none = .ok sheet ∧
        (sheet.store .empty).2.cells = (oneRule.store .empty).2.cells := by
      decide +kernel
    have hstore : (sheet.store .empty).2 = (oneRule.store .empty).2 := congrArg Forest.mk hcells
    exact hstore ▸ .read .empty hparse
  have hcloned : Reachable (finalState ((Operation.clone 2 id none).run (oneRule.store .empty).2)) :=
    .operate hread (show 2 < (oneRule.store .empty).2.size by decide)
  have hcopied : copiedRule.Reachable := by
    refine .operate hcloned ⟨by decide, by decide, ?_⟩
    intro n hn
    obtain rfl := List.mem_singleton.1 hn
    exact not_isAbove_of_parent (by decide) fun p hp => absurd hp (by decide +revert)
  have hmoved : Reachable (finalState ((Operation.insertAfter 6 4 [0, 0]).run copiedRule)) := by
    refine .operate hcopied ⟨by decide, by decide, by decide, ?_⟩
    intro n hn
    have hzero : n = 0 := by simpa using hn
    refine not_isAbove_of_parent (by simp [hzero]) fun p hp => ?_
    obtain rfl : p = 3 := (Option.some.inj hp).symm
    exact not_isAbove_of_parent (by simp [hzero]) fun p hp => absurd hp nofun
  refine ⟨_, hmoved, by decide, by decide, ?_, ?_⟩
  · exact ((isForest_of_reachable hmoved).2.1 0 6 (by decide)).1
  · refine ((isForest_of_reachable hmoved).2.2.2 (.indexOf 2 0) ⟨by decide, by decide⟩ _ _).2
      ⟨?_, rfl⟩
    rw [Operation.failure?, if_neg (by decide)]

end Forest

end FluidCss
