import FluidCss.Proofs.Forest.Growth
import Mathlib.Data.Finset.Card
import Mathlib.Data.Fintype.Basic

set_option autoImplicit false

/-! # The trees that a store holds

`Forest.Holds` says that a tree stands in a store with its top at a node. What is put into a store
is held by it (`Stored`), and what is held is read back: in a well-formed store no chain of parents
is longer than the store is large, so the fuel of `Forest.nodeFrom` never runs out. -/

namespace FluidCss

namespace Forest

variable {f g h : Forest} {n : NodeId} {ids : List NodeId} {ts : List Node}

mutual

/-- Whether a node with all that stands below it is the given tree. -/
def Holds (f : Forest) (n : NodeId) : Node → Prop
  | .declaration prop value source =>
    f.content n = .declaration prop value ∧ f.source n = source ∧ f.children n = []
  | .rule selector source nodes =>
    f.content n = .rule selector ∧ f.source n = source ∧ HoldsAll f (f.children n) nodes
  | .atStatement name params source =>
    f.content n = .atRule name params true ∧ f.source n = source ∧ f.children n = []
  | .atBlock name params source nodes =>
    f.content n = .atRule name params false ∧ f.source n = source ∧ HoldsAll f (f.children n) nodes

/-- Whether nodes with all that stands below them are the given trees, one by one. -/
def HoldsAll (f : Forest) : List NodeId → List Node → Prop
  | [], [] => True
  | n :: ns, t :: ts => Holds f n t ∧ HoldsAll f ns ts
  | _, _ => False

end

theorem holdsAll_append {ids ids' : List NodeId} {ts ts' : List Node} (h : f.HoldsAll ids ts)
    (h' : f.HoldsAll ids' ts') : f.HoldsAll (ids ++ ids') (ts ++ ts') := by
  induction ids generalizing ts with
  | nil =>
    cases ts with
    | nil => exact h'
    | cons t ts => exact absurd h (by simp [HoldsAll])
  | cons n ids ih =>
    cases ts with
    | nil => exact absurd h (by simp [HoldsAll])
    | cons t ts => exact ⟨h.1, ih h.2⟩

section Congr

variable {P : NodeId → Prop}

mutual

/-- Whether a tree is held depends on its own nodes alone. -/
theorem Holds.congr (hclosed : ∀ n, P n → ∀ c ∈ f.children n, P c)
    (hsame : ∀ n, P n → g.content n = f.content n ∧ g.source n = f.source n ∧
      g.children n = f.children n) {n : NodeId} (hn : P n) (t : Node) (h : f.Holds n t) :
    g.Holds n t := by
  obtain ⟨hcontent, hsource, hchildren⟩ := hsame n hn
  cases t with
  | declaration prop value source =>
    obtain ⟨h₁, h₂, h₃⟩ := h
    exact ⟨hcontent.trans h₁, hsource.trans h₂, hchildren.trans h₃⟩
  | rule selector source nodes =>
    obtain ⟨h₁, h₂, h₃⟩ := h
    refine ⟨hcontent.trans h₁, hsource.trans h₂, ?_⟩
    rw [hchildren]
    exact HoldsAll.congr hclosed hsame (hclosed n hn) nodes h₃
  | atStatement name params source =>
    obtain ⟨h₁, h₂, h₃⟩ := h
    exact ⟨hcontent.trans h₁, hsource.trans h₂, hchildren.trans h₃⟩
  | atBlock name params source nodes =>
    obtain ⟨h₁, h₂, h₃⟩ := h
    refine ⟨hcontent.trans h₁, hsource.trans h₂, ?_⟩
    rw [hchildren]
    exact HoldsAll.congr hclosed hsame (hclosed n hn) nodes h₃

theorem HoldsAll.congr (hclosed : ∀ n, P n → ∀ c ∈ f.children n, P c)
    (hsame : ∀ n, P n → g.content n = f.content n ∧ g.source n = f.source n ∧
      g.children n = f.children n) {ns : List NodeId} (hns : ∀ n ∈ ns, P n) (ts : List Node)
    (h : f.HoldsAll ns ts) : g.HoldsAll ns ts := by
  cases ts with
  | nil =>
    cases ns with
    | nil => exact h
    | cons n ns => exact absurd h (by simp [HoldsAll])
  | cons t ts =>
    cases ns with
    | nil => exact absurd h (by simp [HoldsAll])
    | cons n ns =>
      exact ⟨Holds.congr hclosed hsame (hns n (by simp)) t h.1,
        HoldsAll.congr hclosed hsame (fun m hm => hns m (by simp [hm])) ts h.2⟩

end

end Congr

/-- What is held stays held when nodes are made. -/
theorem HoldsAll.grow (hf : f.WellFormed) (hfg : f.GrowsTo g) (hids : ∀ n ∈ ids, n < f.size)
    (hold : f.HoldsAll ids ts) : g.HoldsAll ids ts :=
  HoldsAll.congr (P := fun n => n < f.size) (fun _ _ _ hc => hf.child_lt_size hc)
    (fun _ hn => ⟨hfg.content_eq hn, hfg.source_eq hn, hfg.children_eq hn⟩) hids ts hold

/-! ## Putting trees into a store -/

/-- What is known of nodes that have been made for trees: they hold the trees. -/
structure Stored (f g : Forest) (ids : List NodeId) (ts : List Node) : Prop extends
    Made f g ids where
  holds : g.HoldsAll ids ts

namespace Stored

theorem nil (hf : f.WellFormed) : Stored f f [] [] := ⟨.nil hf, trivial⟩

theorem append {ids' : List NodeId} {ts' : List Node} (hfg : Stored f g ids ts)
    (hgh : Stored g h ids' ts') : Stored f h (ids ++ ids') (ts ++ ts') where
  toMade := hfg.toMade.append hgh.toMade
  holds := holdsAll_append
    (hfg.holds.grow hfg.wellFormed hgh.grows fun n hn => (hfg.fresh n hn).2) hgh.holds

/-- Nodes that have been made go on to hold their trees when a node is made above them. -/
theorem holds_add (hfg : Stored f g ids ts) (content : Content) (source : Option Position) :
    (g.add content source ids).2.HoldsAll ids ts := by
  refine HoldsAll.congr (P := fun n => n < g.size) (fun _ _ _ hc => ?_) (fun n hn => ?_)
    (fun n hn => (hfg.fresh n hn).2) ts hfg.holds
  · exact hfg.wellFormed.child_lt_size hc
  · have hne := Nat.ne_of_lt hn
    exact ⟨by rw [content_add, if_neg hne], by rw [source_add, if_neg hne],
      by rw [children_add, if_neg hne]⟩

/-- A node that is made above nodes that have been made holds what its content and they say. -/
theorem above (hfg : Stored f g ids ts) (content : Content) (source : Option Position) (t : Node)
    (ht : ∀ h : Forest, h.content g.size = content → h.source g.size = source →
      h.children g.size = ids → h.HoldsAll ids ts → h.Holds g.size t) :
    Stored f (g.add content source ids).2 [g.size] [t] where
  toMade := hfg.toMade.above content source
  holds := by
    refine ⟨ht _ ?_ ?_ ?_ (hfg.holds_add content source), trivial⟩
    · rw [content_add, if_pos rfl]
    · rw [source_add, if_pos rfl]
    · rw [children_add, if_pos rfl]

end Stored

mutual

theorem stored_store (t : Node) (f : Forest) (hf : f.WellFormed) :
    Stored f (t.store f).2 [(t.store f).1] [t] := by
  cases t with
  | declaration prop value source =>
    exact (Stored.nil hf).above _ _ _ fun h hcontent hsource hchildren _ =>
      ⟨hcontent, hsource, hchildren⟩
  | rule selector source nodes =>
    refine (stored_storeAll nodes f hf).above _ _ _ ?_
    intro h hcontent hsource hchildren hall
    exact ⟨hcontent, hsource, hchildren ▸ hall⟩
  | atStatement name params source =>
    exact (Stored.nil hf).above _ _ _ fun h hcontent hsource hchildren _ =>
      ⟨hcontent, hsource, hchildren⟩
  | atBlock name params source nodes =>
    refine (stored_storeAll nodes f hf).above _ _ _ ?_
    intro h hcontent hsource hchildren hall
    exact ⟨hcontent, hsource, hchildren ▸ hall⟩

theorem stored_storeAll (ts : List Node) (f : Forest) (hf : f.WellFormed) :
    Stored f (Node.storeAll f ts).2 (Node.storeAll f ts).1 ts := by
  cases ts with
  | nil => exact .nil hf
  | cons t ts =>
    have ht := stored_store t f hf
    exact ht.append (stored_storeAll ts (t.store f).2 ht.wellFormed)

end

/-! ## Reading trees back -/

/-- Chains of parents are no longer than the store is large. -/
theorem WellFormed.exists_rank_le (hf : f.WellFormed) : ∃ rank : NodeId → Nat,
    (∀ n p, f.parent n = some p → rank n < rank p) ∧ ∀ n, rank n ≤ f.size := by
  obtain ⟨rank, hrank⟩ := hf.acyclic
  -- nodes are ranked by the number of nodes that have a smaller rank
  refine ⟨fun n => ((Finset.range f.size).filter fun k => rank k < rank n).card, ?_, ?_⟩
  · intro n p hp
    have hlt := hrank n p hp
    refine Finset.card_lt_card ((Finset.ssubset_iff_of_subset ?_).2 ⟨n, ?_, ?_⟩)
    · intro k hk
      rw [Finset.mem_filter] at hk ⊢
      exact ⟨hk.1, hk.2.trans hlt⟩
    · exact Finset.mem_filter.2 ⟨Finset.mem_range.2 (lt_size_of_parent hp), hlt⟩
    · exact fun hn => absurd (Finset.mem_filter.1 hn).2 (Nat.lt_irrefl _)
  · intro n
    exact (Finset.card_filter_le _ _).trans (Finset.card_range _).le

section Fuel

variable {rank : NodeId → Nat}

mutual

theorem nodeFrom_of_holds (hrank : ∀ n p, n ∈ f.children p → rank n < rank p) (t : Node)
    {fuel : Nat} {n : NodeId} (hfuel : rank n < fuel) (h : f.Holds n t) :
    f.nodeFrom fuel n = some t := by
  obtain ⟨fuel, rfl⟩ := Nat.exists_eq_succ_of_ne_zero (Nat.ne_of_gt (Nat.zero_lt_of_lt hfuel))
  have hbelow : ∀ c ∈ f.children n, rank c < fuel := by
    intro c hc
    exact Nat.lt_of_lt_of_le (hrank c n hc) (Nat.le_of_lt_succ hfuel)
  cases t with
  | declaration prop value source =>
    obtain ⟨hcontent, hsource, -⟩ := h
    rw [nodeFrom, hcontent, hsource]
  | rule selector source nodes =>
    obtain ⟨hcontent, hsource, hall⟩ := h
    rw [nodeFrom, hcontent, hsource]
    dsimp only
    rw [mapM_nodeFrom_of_holds hrank nodes hbelow hall, Option.map_some]
  | atStatement name params source =>
    obtain ⟨hcontent, hsource, -⟩ := h
    rw [nodeFrom, hcontent, hsource]
  | atBlock name params source nodes =>
    obtain ⟨hcontent, hsource, hall⟩ := h
    rw [nodeFrom, hcontent, hsource]
    dsimp only
    rw [mapM_nodeFrom_of_holds hrank nodes hbelow hall, Option.map_some]

theorem mapM_nodeFrom_of_holds (hrank : ∀ n p, n ∈ f.children p → rank n < rank p)
    (ts : List Node) {fuel : Nat} {ns : List NodeId} (hfuel : ∀ n ∈ ns, rank n < fuel)
    (h : f.HoldsAll ns ts) : ns.mapM (f.nodeFrom fuel) = some ts := by
  cases ts with
  | nil =>
    cases ns with
    | nil => rfl
    | cons n ns => exact absurd h (by simp [HoldsAll])
  | cons t ts =>
    cases ns with
    | nil => exact absurd h (by simp [HoldsAll])
    | cons n ns =>
      rw [List.mapM_cons, nodeFrom_of_holds hrank t (hfuel n (by simp)) h.1,
        mapM_nodeFrom_of_holds hrank ts (fun m hm => hfuel m (by simp [hm])) h.2]
      rfl

end

end Fuel

/-- **The trees that stand below a node of a well-formed store are read back.** -/
theorem WellFormed.nodesBelow?_of_holds (hf : f.WellFormed) (h : f.HoldsAll (f.children n) ts) :
    f.nodesBelow? n = some ts := by
  obtain ⟨rank, hrank, hle⟩ := hf.exists_rank_le
  exact mapM_nodeFrom_of_holds (fun k p hk => hrank k p (hf.parent_of_mem hk)) ts
    (fun c _ => Nat.lt_succ_of_le (hle c)) h

end Forest

end FluidCss
