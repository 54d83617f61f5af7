import FluidCss.Proofs.Forest.Duplicate
import FluidCss.Proofs.Forest.Operations

set_option autoImplicit false

/-! # Copies are isolated

What a caller does with nodes, operations and assignments of fields alike, reaches no further than
the links of the nodes that are named: a set of nodes whose links do not lead out of it is
`Enclosed`, and an action that names nodes of such a set leaves all others as they are
(`Action.confines`), with links that still do not lead out of the set. Between a copy and what was
there before there is no link in either direction, so whatever is done to the one from then on is
not seen at the other (`Forest.copy_isolated`). Nothing is asked of the actions: they may leave
links that do not agree, and they may fail. -/

namespace FluidCss

namespace Forest

variable {R : NodeId → Prop} {f g h : Forest} {n m : NodeId} {cs : List NodeId}

/-! ## Sets of nodes without a link that leads out -/

/-- Whether the links of the nodes in a set do not lead out of it. Nodes that are still to be made
belong to the set. -/
structure Enclosed (R : NodeId → Prop) (f : Forest) : Prop where
  new : ∀ k, f.size ≤ k → R k
  parent : ∀ k p, R k → f.parent k = some p → R p
  child : ∀ k c, R k → c ∈ f.children k → R c

/-- Whether all nodes outside of a set are the same in two stores, and the links of those in the set
do not lead out of it in the second one. -/
structure Confined (R : NodeId → Prop) (f g : Forest) : Prop where
  enclosed : g.Enclosed R
  size_le : f.size ≤ g.size
  cell_eq : ∀ k, ¬ R k → g.cell k = f.cell k

namespace Confined

theorem refl (hf : f.Enclosed R) : Confined R f f := ⟨hf, Nat.le_refl _, fun _ _ => rfl⟩

theorem trans (hfg : Confined R f g) (hgh : Confined R g h) : Confined R f h where
  enclosed := hgh.enclosed
  size_le := hfg.size_le.trans hgh.size_le
  cell_eq k hk := (hgh.cell_eq k hk).trans (hfg.cell_eq k hk)

end Confined

namespace Enclosed

/-- A change of one node of the set that gives it no link out of the set. -/
theorem update (hf : f.Enclosed R) (hn : R n) {change : Cell → Cell}
    (hparent : ∀ p, (change (f.cell n)).parent = some p → R p)
    (hchildren : ∀ c ∈ (change (f.cell n)).children, R c) : Confined R f (f.update n change) where
  enclosed :=
    { new := fun k hk => hf.new k (by rwa [size_update] at hk)
      parent := fun k p hk hp => by
        rw [Forest.parent, cell_update] at hp
        split at hp
        · next hnk => exact hparent p (hnk.1 ▸ hp)
        · exact hf.parent k p hk hp
      child := fun k c hk hc => by
        rw [children, cell_update] at hc
        split at hc
        · next hnk => exact hchildren c (hnk.1 ▸ hc)
        · exact hf.child k c hk hc }
  size_le := Nat.le_of_eq (size_update _ _ _).symm
  cell_eq k hk := by
    rw [cell_update, if_neg]
    rintro ⟨rfl, -⟩
    exact hk hn

theorem setParent (hf : f.Enclosed R) (hn : R n) {p : Option NodeId} (hp : ∀ q, p = some q → R q) :
    Confined R f (f.setParent n p) :=
  hf.update hn hp fun c hc => hf.child n c hn hc

theorem setChildren (hf : f.Enclosed R) (hn : R n) (hcs : ∀ c ∈ cs, R c) :
    Confined R f (f.setChildren n cs) :=
  hf.update hn (fun p hp => hf.parent n p hn hp) hcs

theorem setSource (hf : f.Enclosed R) (hn : R n) (source : Option Position) :
    Confined R f (f.setSource n source) :=
  hf.update hn (fun p hp => hf.parent n p hn hp) fun c hc => hf.child n c hn hc

theorem modifyContent (hf : f.Enclosed R) (hn : R n) (change : Content → Content) :
    Confined R f (f.modifyContent n change) :=
  hf.update hn (fun p hp => hf.parent n p hn hp) fun c hc => hf.child n c hn hc

/-- A new node with children from the set. -/
theorem push (hf : f.Enclosed R) (content : Content) (source : Option Position)
    (hcs : ∀ c ∈ cs, R c) : Confined R f (f.push ⟨content, source, none, cs⟩) where
  enclosed :=
    { new := fun k hk => hf.new k (Nat.le_of_succ_le (by rwa [size_push] at hk))
      parent := fun k p hk hp => by
        rw [Forest.parent, cell_push] at hp
        split at hp
        · cases hp
        · exact hf.parent k p hk hp
      child := fun k c hk hc => by
        rw [children, cell_push] at hc
        split at hc
        · exact hcs c hc
        · exact hf.child k c hk hc }
  size_le := by
    rw [size_push]
    exact Nat.le_succ _
  cell_eq k hk := by
    rw [cell_push, if_neg]
    rintro rfl
    exact hk (hf.new _ (Nat.le_refl _))

theorem foldl_setParent (hf : f.Enclosed R) (hcs : ∀ c ∈ cs, R c) {p : NodeId} (hp : R p) :
    Confined R f (cs.foldl (fun g c => g.setParent c (some p)) f) := by
  induction cs generalizing f with
  | nil => exact .refl hf
  | cons c cs ih =>
    have hstep : Confined R f (f.setParent c (some p)) :=
      hf.setParent (hcs c List.mem_cons_self) fun q hq => Option.some.inj hq ▸ hp
    exact hstep.trans (ih hstep.enclosed fun d hd => hcs d (List.mem_cons_of_mem c hd))

theorem add (hf : f.Enclosed R) (content : Content) (source : Option Position)
    (hcs : ∀ c ∈ cs, R c) : Confined R f (f.add content source cs).2 :=
  (hf.push content source hcs).trans
    ((hf.push content source hcs).enclosed.foldl_setParent hcs (hf.new _ (Nat.le_refl _)))

end Enclosed

end Forest

namespace Edit

open Forest

/-! ## Steps that stay within a set -/

/-- Whether a rearrangement, started where no link leads out of a set, leaves all nodes outside of
the set as they are, whether it fails or not. What it gives, if it does, has the property `P`. -/
def Confines {α : Type} (R : NodeId → Prop) (x : Edit α) (P : α → Prop) : Prop :=
  ∀ f, f.Enclosed R → Confined R f (finalState (x f)) ∧ ∀ a g, x f = .ok a g → P a

namespace Confines

variable {α β : Type} {R : NodeId → Prop} {P : α → Prop} {Q : β → Prop}

theorem pure {a : α} (ha : P a) : Confines R (pure a : Edit α) P := by
  refine fun f hf => ⟨.refl hf, fun b g h => ?_⟩
  obtain ⟨rfl, -⟩ := pure_eq_ok_iff.1 h
  exact ha

theorem throw (e : EditError) : Confines R (throw e : Edit α) P :=
  fun _ hf => ⟨.refl hf, fun _ _ h => absurd h nofun⟩

theorem modify {change : Forest → Forest} (h : ∀ f, f.Enclosed R → Confined R f (change f)) :
    Confines R (modify change) fun _ => True :=
  fun f hf => ⟨h f hf, fun _ _ _ => trivial⟩

theorem bind {x : Edit α} {k : α → Edit β} (hx : Confines R x P)
    (hk : ∀ a, P a → Confines R (k a) Q) : Confines R (x >>= k) Q := by
  intro f hf
  obtain ⟨hconfined, hresult⟩ := hx f hf
  cases hxf : x f with
  | ok a g =>
    rw [hxf] at hconfined
    obtain ⟨hrest, hb⟩ := hk a (hresult a g hxf) g hconfined.enclosed
    rw [bind_of_ok hxf]
    exact ⟨hconfined.trans hrest, hb⟩
  | error e g =>
    rw [hxf] at hconfined
    rw [bind_of_error hxf]
    exact ⟨hconfined, fun _ _ h => absurd h nofun⟩

/-- What follows a look at the store has to stay within the set for every store that can be seen. -/
theorem get_bind {k : Forest → Edit β} (hk : ∀ f, f.Enclosed R → Confines R (k f) Q) :
    Confines R (get >>= k) Q := fun f hf => hk f hf f hf

theorem mapM {step : α → Edit β} {as : List α} (h : ∀ a ∈ as, Confines R (step a) Q) :
    Confines R (as.mapM step) fun bs => ∀ b ∈ bs, Q b := by
  induction as with
  | nil => exact pure (by simp)
  | cons a as ih =>
    rw [List.mapM_cons]
    refine (h a List.mem_cons_self).bind fun b hb => ?_
    refine (ih fun a' ha' => h a' (List.mem_cons_of_mem a ha')).bind fun bs hbs => ?_
    refine pure fun b' hb' => ?_
    rcases List.mem_cons.1 hb' with rfl | hb'
    · exact hb
    · exact hbs b' hb'

/-- What a rearrangement gives need not be kept. -/
theorem discard {x : Edit α} (hx : Confines R x P) :
    Confines R (do let _ ← x; Pure.pure ()) fun _ : Unit => True :=
  hx.bind fun _ _ => pure trivial

end Confines

section Operations

variable {R : NodeId → Prop} {c n x : NodeId} {ns : List NodeId}

theorem create_confines (content : Content) (source : Option Position) (hns : ∀ n ∈ ns, R n) :
    Confines R (create content source ns) R := by
  refine fun f hf => ⟨hf.add content source hns, fun a g h => ?_⟩
  rw [create_eq, EStateM.Result.ok.injEq] at h
  exact h.1 ▸ hf.new _ (Nat.le_refl _)

theorem indexOf_confines : Confines R (indexOf c x) fun _ => True := by
  refine .get_bind fun f _ => ?_
  split
  · exact .pure trivial
  · exact .throw _

theorem removeChild_confines (hc : R c) (hx : R x) :
    Confines R (removeChild c x) fun _ => True := by
  refine indexOf_confines.bind fun place _ => .modify fun f hf => ?_
  have hrest : ∀ d ∈ (f.children c).eraseIdx place, R d := fun d hd =>
    hf.child c d hc (List.mem_of_mem_eraseIdx hd)
  have hlist := hf.setChildren hc hrest
  exact hlist.trans (hlist.enclosed.setParent hx nofun)

theorem remove_confines (hn : R n) : Confines R (remove n) fun _ => True := by
  refine .get_bind fun f hf => ?_
  split
  · next p hp => exact removeChild_confines (hf.parent n p hn hp) hn
  · exact .pure trivial

theorem adopt_confines (hc : R c) (hn : R n) : Confines R (adopt c n) fun _ => True :=
  (remove_confines hn).bind fun _ _ =>
    .modify fun _ hf => hf.setParent hn fun _ hq => Option.some.inj hq ▸ hc

theorem append_confines (hc : R c) (hns : ∀ n ∈ ns, R n) :
    Confines R (append c ns) fun _ => True := by
  induction ns with
  | nil => exact .pure trivial
  | cons n ns ih =>
    have hn := hns n List.mem_cons_self
    refine (adopt_confines hc hn).bind fun _ _ => ?_
    refine (Confines.modify fun f hf => hf.setChildren hc fun d hd => ?_).bind fun _ _ =>
      ih fun m hm => hns m (List.mem_cons_of_mem n hm)
    rcases List.mem_append.1 hd with hd | hd
    · exact hf.child c d hc hd
    · exact List.mem_singleton.1 hd ▸ hn

theorem insertFrom_confines (hc : R c) (place : Nat) (hns : ∀ n ∈ ns, R n) :
    Confines R (insertFrom c place ns) fun _ => True := by
  induction ns generalizing place with
  | nil => exact .pure trivial
  | cons n ns ih =>
    have hn := hns n List.mem_cons_self
    refine (adopt_confines hc hn).bind fun _ _ => ?_
    refine (Confines.modify fun f hf => hf.setChildren hc fun d hd => ?_).bind fun _ _ =>
      ih (place + 1) fun m hm => hns m (List.mem_cons_of_mem n hm)
    rw [insertAt, List.mem_append, List.mem_cons] at hd
    rcases hd with hd | rfl | hd
    · exact hf.child c d hc (List.mem_of_mem_take hd)
    · exact hn
    · exact hf.child c d hc (List.mem_of_mem_drop hd)

theorem insertAfter_confines (hc : R c) (hns : ∀ n ∈ ns, R n) :
    Confines R (insertAfter c x ns) fun _ => True :=
  indexOf_confines.bind fun place _ => insertFrom_confines hc (place + 1) hns

theorem replaceWith_confines (hn : R n) (hns : ∀ m ∈ ns, R m) :
    Confines R (replaceWith n ns) fun _ => True := by
  refine .get_bind fun f hf => ?_
  split
  · exact .throw _
  · next p hp =>
    exact (insertAfter_confines (hf.parent n p hn hp) hns).bind fun _ _ => remove_confines hn

theorem copyFrom_confines (fuel : Nat) (hn : R n) : Confines R (copyFrom fuel n) R := by
  induction fuel generalizing n with
  | zero => exact .get_bind fun f _ => create_confines _ _ (by simp)
  | succ fuel ih =>
    refine .get_bind fun f hf => ?_
    refine (Confines.mapM fun c hc => ih (hf.child n c hn hc)).bind fun ms hms => ?_
    exact .get_bind fun g _ => create_confines _ _ hms

theorem copyWith_confines {overrides : Overrides} (hn : R n)
    (hparent : ∀ p ∈ overrides.parent, R p) (hnodes : ∀ ms ∈ overrides.nodes, ∀ m ∈ ms, R m) :
    Confines R (copyWith n overrides) R := by
  rw [copyWith]
  have hfinish : ∀ ms : List NodeId, (∀ m ∈ ms, R m) → Confines R (do
      let f ← get
      let m ← create (overrides.content (f.content n)) (overrides.source.getD (f.source n)) ms
      modify fun f => f.setParent m overrides.parent
      pure m) R := by
    intro ms hms
    refine .get_bind fun f _ => (create_confines _ _ hms).bind fun m hm => ?_
    exact (Confines.modify fun f hf => hf.setParent hm hparent).bind fun _ _ => .pure hm
  cases hover : overrides.nodes with
  | some ms => exact (Confines.pure (hnodes ms hover)).bind hfinish
  | none =>
    refine Confines.get_bind fun f hf => ?_
    exact (Confines.mapM fun c hc => copyFrom_confines _ (hf.child n c hn hc)).bind hfinish

end Operations

end Edit

/-! ## Actions -/

/-- What a caller can do with nodes: the operations, copies with anything different, and assignments
to the fields of a node. -/
inductive Action where
  | operate (op : Operation)
  /-- Copies a node with all its descendants, with anything different. -/
  | cloneWith (n : NodeId) (overrides : Overrides)
  /-- Assigns to what a node is: a property name or value, a selector, and so on. -/
  | assignContent (n : NodeId) (change : Content → Content)
  | assignSource (n : NodeId) (source : Option Position)
  | assignParent (n : NodeId) (parent : Option NodeId)
  | assignNodes (n : NodeId) (nodes : List NodeId)

/-- The nodes that an operation is given. -/
def Operation.named : Operation → List NodeId
  | make _ _ nodes => nodes
  | clone n _ _ => [n]
  | append container nodes => container :: nodes
  | insertAfter container child nodes => container :: child :: nodes
  | replaceWith n nodes => n :: nodes
  | remove n => [n]
  | removeChild container child => [container, child]
  | indexOf container child => [container, child]

namespace Action

/-- What an action does to a store. -/
def run : Action → Edit Unit
  | operate op => op.run
  | cloneWith n overrides => do
    let _ ← Edit.copyWith n overrides
  | assignContent n change => Edit.modifyContent n change
  | assignSource n source => Edit.setSource n source
  | assignParent n parent => modify fun f => f.setParent n parent
  | assignNodes n nodes => modify fun f => f.setChildren n nodes

/-- The nodes that an action is given. -/
def named : Action → List NodeId
  | operate op => op.named
  | cloneWith n overrides => n :: (overrides.parent.toList ++ overrides.nodes.getD [])
  | assignContent n _ => [n]
  | assignSource n _ => [n]
  | assignParent n parent => n :: parent.toList
  | assignNodes n nodes => n :: nodes

end Action

/-- The store after actions. An action that fails leaves the store that it has reached, and the next
one goes on from there. -/
def Forest.after (f : Forest) (actions : List Action) : Forest :=
  actions.foldl (fun f action => finalState (action.run f)) f

namespace Operation

open Edit

/-- An operation on nodes of a set leaves all other nodes as they are. -/
theorem confines {R : NodeId → Prop} (op : Operation) (hnamed : ∀ k ∈ op.named, R k) :
    Confines R op.run fun _ => True := by
  cases op with
  | make content source nodes => exact (create_confines content source hnamed).discard
  | clone n change source =>
    exact (copyWith_confines (hnamed n List.mem_cons_self) (by simp) (by simp)).discard
  | append container nodes =>
    obtain ⟨hc, hns⟩ := List.forall_mem_cons.1 hnamed
    exact append_confines hc hns
  | insertAfter container child nodes =>
    obtain ⟨hc, hrest⟩ := List.forall_mem_cons.1 hnamed
    exact insertAfter_confines hc (List.forall_mem_cons.1 hrest).2
  | replaceWith n nodes =>
    obtain ⟨hn, hns⟩ := List.forall_mem_cons.1 hnamed
    exact replaceWith_confines hn hns
  | remove n => exact remove_confines (hnamed n List.mem_cons_self)
  | removeChild container child =>
    obtain ⟨hc, hx⟩ := List.forall_mem_cons.1 hnamed
    exact removeChild_confines hc (hx child List.mem_cons_self)
  | indexOf container child => exact indexOf_confines.discard

end Operation

namespace Action

open Edit Forest

variable {R : NodeId → Prop} {f : Forest}

/-- **An action on nodes of a set leaves all other nodes as they are.** -/
theorem confines (action : Action) (hnamed : ∀ k ∈ action.named, R k) :
    Confines R action.run fun _ => True := by
  cases action with
  | operate op => exact op.confines hnamed
  | cloneWith n overrides =>
    obtain ⟨hn, hrest⟩ := List.forall_mem_cons.1 hnamed
    obtain ⟨hparent, hnodes⟩ := List.forall_mem_append.1 hrest
    refine (copyWith_confines hn (fun p hp => hparent p (Option.mem_toList.2 hp)) ?_).discard
    intro ms hms m hm
    exact hnodes m (by rwa [Option.mem_def.1 hms])
  | assignContent n change =>
    exact .modify fun f hf => hf.modifyContent (hnamed n List.mem_cons_self) change
  | assignSource n source =>
    exact .modify fun f hf => hf.setSource (hnamed n List.mem_cons_self) source
  | assignParent n parent =>
    obtain ⟨hn, hparent⟩ := List.forall_mem_cons.1 hnamed
    exact .modify fun f hf => hf.setParent hn fun q hq => hparent q (Option.mem_toList.2 hq)
  | assignNodes n nodes =>
    obtain ⟨hn, hns⟩ := List.forall_mem_cons.1 hnamed
    exact .modify fun f hf => hf.setChildren hn hns

/-- **Nor does a sequence of actions reach further.** -/
theorem confined_after (hf : f.Enclosed R) (actions : List Action)
    (hnamed : ∀ action ∈ actions, ∀ k ∈ action.named, R k) : Confined R f (f.after actions) := by
  induction actions generalizing f with
  | nil => exact .refl hf
  | cons action actions ih =>
    have hstep := (action.confines (hnamed action List.mem_cons_self) f hf).1
    exact hstep.trans
      (ih hstep.enclosed fun a ha => hnamed a (List.mem_cons_of_mem action ha))

end Action

namespace Forest

variable {f g : Forest} {ids : List NodeId} {n : NodeId}

/-! ## Copies -/

/-- No link leads from a node that has been made to one that was there before. -/
theorem Made.enclosed_new (h : Made f g ids) (hf : f.WellFormed) :
    g.Enclosed fun k => f.size ≤ k where
  new k hk := h.grows.size_le.trans hk
  parent k p hk hp := by
    -- a node that was there before lists the nodes that it has listed before
    by_contra hlt
    have hmem := h.wellFormed.mem_children hp
    rw [h.grows.children_eq (Nat.lt_of_not_le hlt)] at hmem
    exact absurd (hf.child_lt_size hmem) (Nat.not_lt_of_le hk)
  child k c hk hc := by
    by_contra hlt
    have hparent := h.wellFormed.parent_of_mem hc
    rw [h.grows.parent_eq (Nat.lt_of_not_le hlt)] at hparent
    exact absurd (hf.parent_lt_size hparent) (Nat.not_lt_of_le hk)

/-- No link leads from a node that was there before to one that has been made. -/
theorem Made.enclosed_old (h : Made f g ids) (hf : f.WellFormed) :
    g.Enclosed fun k => k < f.size ∨ g.size ≤ k where
  new k hk := .inr hk
  parent k p hk hp := by
    rcases hk with hk | hk
    · rw [h.grows.parent_eq hk] at hp
      exact .inl (hf.parent_lt_size hp)
    · exact absurd (lt_size_of_parent hp) (Nat.not_lt_of_le hk)
  child k c hk hc := by
    rcases hk with hk | hk
    · rw [h.grows.children_eq hk] at hc
      exact .inl (hf.child_lt_size hc)
    · exact absurd (lt_size_of_mem_children hc) (Nat.not_lt_of_le hk)

/-- What becomes of the nodes that were there before when all actions are about others. -/
theorem Made.growsTo_after (h : Made f g ids) (hf : f.WellFormed) {actions : List Action}
    (hnamed : ∀ action ∈ actions, ∀ k ∈ action.named, f.size ≤ k) :
    f.GrowsTo (g.after actions) := by
  have hconfined := Action.confined_after (h.enclosed_new hf) actions hnamed
  refine ⟨h.grows.size_le.trans hconfined.size_le, fun k hk => ?_⟩
  rw [hconfined.cell_eq k (Nat.not_le_of_lt hk), h.grows.cell_eq k hk]

/-- What becomes of the nodes that have been made when all actions are about others. -/
theorem Made.cell_after (h : Made f g ids) (hf : f.WellFormed) {actions : List Action}
    (hnamed : ∀ action ∈ actions, ∀ k ∈ action.named, k < f.size ∨ g.size ≤ k) (k : NodeId)
    (hlow : f.size ≤ k) (hhigh : k < g.size) : (g.after actions).cell k = g.cell k := by
  refine (Action.confined_after (h.enclosed_old hf) actions hnamed).cell_eq k ?_
  rintro (hk | hk)
  · exact absurd hk (Nat.not_lt_of_le hlow)
  · exact absurd hhigh (Nat.not_lt_of_le hk)

/-- **A copy is deep and isolated.** The copy of a node stands alone and looks like the node, with
links that agree; the nodes made for it are the copy and what stands below it, and all others stay
as they were. From then on, actions on the copy and on nodes that are made later leave the node and
all others that were there as they were, and actions on those and on nodes that are made later leave
the copy as it was made. -/
theorem copy_isolated (hf : f.WellFormed) (hn : n < f.size) :
    ∃ m g, Edit.copy n f = .ok m g ∧ Edit.copyWith n {} f = .ok m g ∧
      g.WellFormed ∧ g.parent m = none ∧ g.shape m = f.shape n ∧
      (∀ k, k ∈ m :: g.walk m ↔ f.size ≤ k ∧ k < g.size) ∧ f.GrowsTo g ∧
      (∀ actions : List Action,
        (∀ action ∈ actions, ∀ k ∈ action.named, k ∈ m :: g.walk m ∨ g.size ≤ k) →
        f.GrowsTo (g.after actions) ∧ (g.after actions).shape n = f.shape n) ∧
      (∀ actions : List Action,
        (∀ action ∈ actions, ∀ k ∈ action.named, k < f.size ∨ g.size ≤ k) →
        (∀ k ∈ m :: g.walk m, (g.after actions).cell k = g.cell k) ∧
          (g.after actions).shape m = f.shape n) := by
  obtain ⟨m, g, hcopy, hmade⟩ := Edit.copy_duplicate hf hn
  have hshape : g.shape m = f.shape n := List.cons.inj hmade.shapes_eq |>.1
  have hmem : ∀ k, k ∈ m :: g.walk m ↔ f.size ≤ k ∧ k < g.size := by
    intro k
    rw [← hmade.mem_iff k]
    simp
  refine ⟨m, g, hcopy, (Edit.copyWith_eq_copy hf hn).trans hcopy, hmade.wellFormed,
    hmade.detached m List.mem_cons_self, hshape, hmem, hmade.grows, ?copied, ?original⟩
  case copied =>
    intro actions hnamed
    have hgrows := hmade.growsTo_after hf fun action haction k hk =>
      (hnamed action haction k hk).elim (fun h => ((hmem k).1 h).1)
        fun h => hmade.grows.size_le.trans h
    exact ⟨hgrows, hf.shape_of_growsTo hgrows n hn⟩
  case original =>
    intro actions hnamed
    have hcell := hmade.cell_after hf hnamed
    refine ⟨fun k hk => hcell k ((hmem k).1 hk).1 ((hmem k).1 hk).2, ?_⟩
    rw [← hshape]
    refine hmade.wellFormed.shape_congr (P := fun k => f.size ≤ k ∧ k < g.size)
      (Action.confined_after (hmade.enclosed_old hf) actions hnamed).size_le
      (fun k hk c hc => ?_) (fun k hk => ?_) m ((hmem m).1 List.mem_cons_self)
    · exact ⟨(hmade.enclosed_new hf).child k c hk.1 hc, hmade.wellFormed.child_lt_size hc⟩
    · have hsame := hcell k hk.1 hk.2
      exact ⟨congrArg Cell.content hsame, congrArg Cell.source hsame,
        congrArg Cell.children hsame⟩

/-- In a copy of a rule one declaration gets another value and the other is taken out; then the copy
is copied and the new copy put below it. The rule still looks as before. -/
theorem copy_isolated_editedRule :
    ∃ m g, Edit.copyWith 2 {} (oneRule.store .empty).2 = .ok m g ∧
      (g.after [.assignContent 4 (·.withValue "x"), .operate (.remove 5), .cloneWith 6 {},
        .operate (.append 6 [8])]).children 6 = [4, 8] ∧
      (g.after [.assignContent 4 (·.withValue "x"), .operate (.remove 5), .cloneWith 6 {},
        .operate (.append 6 [8])]).shape 2 = (oneRule.store .empty).2.shape 2 := by
  obtain ⟨m, g, -, hcopy, -, -, -, hmem, -, hisolated, -⟩ :=
    copy_isolated (Sheet.store_ok wellFormed_empty oneRule).1
      (show 2 < (oneRule.store .empty).2.size by decide)
  have hg : g = finalState (Edit.copyWith 2 {} (oneRule.store .empty).2) := by rw [hcopy]; rfl
  refine ⟨m, g, hcopy, ?_, (hisolated _ ?_).2⟩
  · rw [hg]
    decide
  · intro action haction k hk
    have hle : (oneRule.store .empty).2.size ≤ k := by
      revert action k
      decide
    rw [hmem]
    exact (Nat.lt_or_ge k g.size).imp (fun h => ⟨hle, h⟩) id

end Forest

end FluidCss
