import FluidCss.Proofs.Forest.Walking

set_option autoImplicit false

/-! # What a copy looks like

`Forest.shape` is all that can be seen of a node without identities: what the node is, where it was
read from, and the same of its children, in order. A copy of a node has the same shape, and the
nodes that are made for it are the copy and what stands below it (`Edit.copy_duplicate`). It makes
no difference whether a node is copied as it is or with nothing different
(`Edit.copyWith_eq_copy`). -/

namespace FluidCss

/-- What is seen of a node without identities, with all that stands below it. -/
inductive Shape where
  | node (content : Content) (source : Option Position) (below : List Shape)

namespace Shape

mutual

/-- Makes a node with a shape. -/
def store (f : Forest) : Shape → NodeId × Forest
  | node content source below =>
    let (children, g) := storeAll f below
    g.add content source children

/-- Makes nodes with shapes, one after the other. -/
def storeAll (f : Forest) : List Shape → List NodeId × Forest
  | [] => ([], f)
  | s :: ss =>
    let (id, g) := s.store f
    let (ids, h) := storeAll g ss
    (id :: ids, h)

end

end Shape

namespace Forest

/-- The shape of a node, at most `fuel` levels below it. -/
def shapeFrom (f : Forest) : Nat → NodeId → Shape
  | 0, n => .node (f.content n) (f.source n) []
  | fuel + 1, n => .node (f.content n) (f.source n) ((f.children n).map (shapeFrom f fuel))

/-- The shape of a node. A store in which no node is its own ancestor has no more levels than
nodes. -/
def shape (f : Forest) (n : NodeId) : Shape := f.shapeFrom f.size n

variable {f g h : Forest} {n m k : NodeId} {ids ids' : List NodeId} {shapes shapes' : List Shape}

theorem shapeFrom_eq_of_rank {rank : NodeId → Nat}
    (hrank : ∀ n p, n ∈ f.children p → rank n < rank p) (fuel fuel' : Nat) (n : NodeId)
    (h : rank n ≤ fuel) (h' : rank n ≤ fuel') : f.shapeFrom fuel n = f.shapeFrom fuel' n := by
  have hleaf : rank n = 0 → f.children n = [] := by
    intro hzero
    refine List.eq_nil_iff_forall_not_mem.2 fun c hc => ?_
    have hlt := hrank c n hc
    omega
  induction fuel generalizing fuel' n with
  | zero =>
    cases fuel' with
    | zero => rfl
    | succ fuel' => rw [shapeFrom, shapeFrom, hleaf (by omega), List.map_nil]
  | succ fuel ih =>
    cases fuel' with
    | zero => rw [shapeFrom, shapeFrom, hleaf (by omega), List.map_nil]
    | succ fuel' =>
      rw [shapeFrom, shapeFrom]
      congr 1
      refine List.map_congr_left fun c hc => ?_
      have hlt := hrank c n hc
      refine ih fuel' c (by omega) (by omega) fun hzero => ?_
      refine List.eq_nil_iff_forall_not_mem.2 fun d hd => ?_
      have hlt := hrank d c hd
      omega

/-- **The shape of a node is that of its children under what the node is itself.** -/
theorem WellFormed.shape_eq (hf : f.WellFormed) (n : NodeId) :
    f.shape n = .node (f.content n) (f.source n) ((f.children n).map f.shape) := by
  obtain ⟨rank, hrank, hle⟩ := hf.exists_rank_le
  have hlt : ∀ k p, k ∈ f.children p → rank k < rank p :=
    fun k p hk => hrank k p (hf.parent_of_mem hk)
  calc f.shape n = f.shapeFrom (f.size + 1) n :=
        shapeFrom_eq_of_rank hlt _ _ n (hle n) ((hle n).trans (Nat.le_succ _))
    _ = _ := rfl

section Congr

variable {P : NodeId → Prop}

/-- The shape of a node depends on what stands below it alone. -/
theorem shapeFrom_congr (hclosed : ∀ n, P n → ∀ c ∈ f.children n, P c)
    (hsame : ∀ n, P n → g.content n = f.content n ∧ g.source n = f.source n ∧
      g.children n = f.children n) (fuel : Nat) (n : NodeId) (hn : P n) :
    g.shapeFrom fuel n = f.shapeFrom fuel n := by
  induction fuel generalizing n with
  | zero =>
    obtain ⟨hcontent, hsource, -⟩ := hsame n hn
    rw [shapeFrom, shapeFrom, hcontent, hsource]
  | succ fuel ih =>
    obtain ⟨hcontent, hsource, hchildren⟩ := hsame n hn
    rw [shapeFrom, shapeFrom, hcontent, hsource, hchildren]
    congr 1
    exact List.map_congr_left fun c hc => ih c (hclosed n hn c hc)

/-- The shape of a node stays when the nodes below it look as before, whatever becomes of others. -/
theorem WellFormed.shape_congr (hf : f.WellFormed) (hle : f.size ≤ g.size)
    (hclosed : ∀ n, P n → ∀ c ∈ f.children n, P c)
    (hsame : ∀ n, P n → g.content n = f.content n ∧ g.source n = f.source n ∧
      g.children n = f.children n) (n : NodeId) (hn : P n) : g.shape n = f.shape n := by
  obtain ⟨rank, hrank, hrankle⟩ := hf.exists_rank_le
  calc g.shape n = f.shapeFrom g.size n := shapeFrom_congr hclosed hsame _ n hn
    _ = f.shape n :=
      shapeFrom_eq_of_rank (fun k p hk => hrank k p (hf.parent_of_mem hk)) _ _ n
        ((hrankle n).trans hle) (hrankle n)

end Congr

theorem WellFormed.shapeFrom_of_growsTo (hf : f.WellFormed) (hfg : f.GrowsTo g) (fuel : Nat)
    (n : NodeId) (hn : n < f.size) : g.shapeFrom fuel n = f.shapeFrom fuel n :=
  shapeFrom_congr (P := fun n => n < f.size) (fun _ _ _ hc => hf.child_lt_size hc)
    (fun _ hn => ⟨hfg.content_eq hn, hfg.source_eq hn, hfg.children_eq hn⟩) fuel n hn

theorem WellFormed.shape_of_growsTo (hf : f.WellFormed) (hfg : f.GrowsTo g) (n : NodeId)
    (hn : n < f.size) : g.shape n = f.shape n :=
  hf.shape_congr (P := fun n => n < f.size) hfg.size_le (fun _ _ _ hc => hf.child_lt_size hc)
    (fun _ hn => ⟨hfg.content_eq hn, hfg.source_eq hn, hfg.children_eq hn⟩) n hn

/-- A node keeps its descendants when nodes are made, whoever lists it. -/
theorem WellFormed.walk_congr (hf : f.WellFormed) (hg : g.WellFormed)
    (hchildren : ∀ n < f.size, g.children n = f.children n) (n : NodeId) (hn : n < f.size) :
    g.walk n = f.walk n := by
  induction n using hf.walk_induction with
  | step n ih =>
    rw [hf.walk_eq, hg.walk_eq, hchildren n hn]
    exact List.flatMap_congr fun c hc => by rw [ih c hc (hf.child_lt_size hc)]

/-! ## Nodes with given shapes -/

/-- What is known of nodes that have been made with given shapes: nothing else has been made. -/
structure Duplicate (f g : Forest) (ids : List NodeId) (shapes : List Shape) : Prop extends
    Made f g ids where
  shapes_eq : ids.map g.shape = shapes
  mem_iff : ∀ k : Nat, (∃ n ∈ ids, k ∈ n :: g.walk n) ↔ f.size ≤ k ∧ k < g.size

namespace Duplicate

theorem nil (hf : f.WellFormed) : Duplicate f f [] [] where
  toMade := .nil hf
  shapes_eq := rfl
  mem_iff k := by
    refine iff_of_false (by simp) fun hk => ?_
    exact absurd hk.2 (Nat.not_lt_of_le hk.1)

theorem append (hfg : Duplicate f g ids shapes) (hgh : Duplicate g h ids' shapes') :
    Duplicate f h (ids ++ ids') (shapes ++ shapes') where
  toMade := hfg.toMade.append hgh.toMade
  shapes_eq := by
    rw [List.map_append, hgh.shapes_eq, ← hfg.shapes_eq]
    congr 1
    exact List.map_congr_left fun n hn =>
      hfg.wellFormed.shape_of_growsTo hgh.grows n (hfg.fresh n hn).2
  mem_iff k := by
    have hwalk : ∀ n ∈ ids, h.walk n = g.walk n := fun n hn =>
      hfg.wellFormed.walk_congr hgh.wellFormed (fun _ hk => hgh.grows.children_eq hk) n
        (hfg.fresh n hn).2
    have hleft : (∃ n ∈ ids, k ∈ n :: h.walk n) ↔ f.size ≤ k ∧ k < g.size := by
      rw [← hfg.mem_iff k]
      exact exists_congr fun n => and_congr_right fun hn => by rw [hwalk n hn]
    have hfg_le := hfg.grows.size_le
    have hgh_le := hgh.grows.size_le
    simp only [List.mem_append, or_and_right, exists_or]
    rw [hleft, hgh.mem_iff k]
    constructor
    · rintro (⟨hlow, hhigh⟩ | ⟨hlow, hhigh⟩)
      · exact ⟨hlow, hhigh.trans_le hgh_le⟩
      · exact ⟨hfg_le.trans hlow, hhigh⟩
    · intro hk
      by_cases hkg : k < g.size
      · exact .inl ⟨hk.1, hkg⟩
      · exact .inr ⟨Nat.le_of_not_lt hkg, hk.2⟩

/-- A node that is made above nodes that have been made. -/
theorem above (hfg : Duplicate f g ids shapes) (content : Content) (source : Option Position) :
    Duplicate f (g.add content source ids).2 [g.size] [.node content source shapes] where
  toMade := hfg.toMade.above content source
  shapes_eq := by
    have hwell := (hfg.toMade.above content source).wellFormed
    have hbelow : ids.map (g.add content source ids).2.shape = shapes := by
      rw [← hfg.shapes_eq]
      refine List.map_congr_left fun n hn => ?_
      refine hfg.wellFormed.shape_congr (P := fun n => n < g.size) (by simp)
        (fun _ _ _ hc => hfg.wellFormed.child_lt_size hc) (fun k hk => ?_) n (hfg.fresh n hn).2
      have hne := Nat.ne_of_lt hk
      exact ⟨by rw [content_add, if_neg hne], by rw [source_add, if_neg hne],
        by rw [children_add, if_neg hne]⟩
    rw [List.map_singleton, hwell.shape_eq, content_add, if_pos rfl, source_add, if_pos rfl,
      children_add, if_pos rfl, hbelow]
  mem_iff k := by
    have hwell := (hfg.toMade.above content source).wellFormed
    have hwalk : ∀ n ∈ ids, (g.add content source ids).2.walk n = g.walk n := fun n hn =>
      hfg.wellFormed.walk_congr hwell
        (fun k hk => by rw [children_add, if_neg (Nat.ne_of_lt hk)]) n (hfg.fresh n hn).2
    have hbelow : k ∈ (g.add content source ids).2.walk g.size ↔ f.size ≤ k ∧ k < g.size := by
      rw [hwell.walk_eq, children_add, if_pos rfl, List.mem_flatMap, ← hfg.mem_iff k]
      exact exists_congr fun n => and_congr_right fun hn => by rw [hwalk n hn]
    have hle := hfg.grows.size_le
    have hself : (∃ n ∈ [g.size], k ∈ n :: (g.add content source ids).2.walk n) ↔
        k = g.size ∨ f.size ≤ k ∧ k < g.size := by
      rw [← hbelow]
      simp only [List.mem_cons, List.not_mem_nil, or_false, exists_eq_left]
    rw [size_add, hself]
    constructor
    · rintro (rfl | ⟨hlow, hhigh⟩)
      · exact ⟨hle, Nat.lt_succ_self _⟩
      · exact ⟨hlow, hhigh.trans (Nat.lt_succ_self _)⟩
    · rintro ⟨hlow, hhigh⟩
      exact (Nat.lt_succ_iff_lt_or_eq.1 hhigh).elim (fun h => .inr ⟨hlow, h⟩) .inl

end Duplicate

mutual

theorem duplicate_store (s : Shape) (f : Forest) (hf : f.WellFormed) :
    Duplicate f (s.store f).2 [(s.store f).1] [s] := by
  cases s with
  | node content source below => exact (duplicate_storeAll below f hf).above content source

theorem duplicate_storeAll (ss : List Shape) (f : Forest) (hf : f.WellFormed) :
    Duplicate f (Shape.storeAll f ss).2 (Shape.storeAll f ss).1 ss := by
  cases ss with
  | nil => exact .nil hf
  | cons s ss =>
    have hs := duplicate_store s f hf
    exact hs.append (duplicate_storeAll ss (s.store f).2 hs.wellFormed)

end

end Forest

/-! ## Copying -/

namespace Edit

open Forest

variable {f : Forest} {n : NodeId}

/-- If each of several nodes is copied by making one with its shape, all are. -/
theorem mapM_eq_storeAll {copy : NodeId → Edit NodeId} (shape : Forest → NodeId → Shape)
    (hcopy : ∀ n f, f.WellFormed → n < f.size →
      copy n f = .ok ((shape f n).store f).1 ((shape f n).store f).2)
    (hshape : ∀ f g n, f.WellFormed → f.GrowsTo g → n < f.size → shape g n = shape f n)
    (ns : List NodeId) (f : Forest) (hf : f.WellFormed) (hns : ∀ n ∈ ns, n < f.size) :
    ns.mapM copy f =
      .ok (Shape.storeAll f (ns.map (shape f))).1 (Shape.storeAll f (ns.map (shape f))).2 := by
  induction ns generalizing f with
  | nil => rfl
  | cons n ns ih =>
    have hmade := duplicate_store (shape f n) f hf
    have hold : ∀ n' ∈ ns, n' < f.size := fun n' hn' => hns n' (List.mem_cons_of_mem n hn')
    have hrest := ih _ hmade.wellFormed fun n' hn' =>
      Nat.lt_of_lt_of_le (hold n' hn') hmade.grows.size_le
    have hshapes : ns.map (shape ((shape f n).store f).2) = ns.map (shape f) :=
      List.map_congr_left fun n' hn' => hshape f _ n' hf hmade.grows (hold n' hn')
    rw [hshapes] at hrest
    rw [List.mapM_cons, bind_of_ok (hcopy n f hf (hns n List.mem_cons_self)), bind_of_ok hrest]
    rfl

/-- To copy a node is to make one with its shape. -/
theorem copyFrom_eq_store (fuel : Nat) (n : NodeId) (f : Forest) (hf : f.WellFormed)
    (hn : n < f.size) : copyFrom fuel n f =
      .ok ((f.shapeFrom fuel n).store f).1 ((f.shapeFrom fuel n).store f).2 := by
  induction fuel generalizing n f with
  | zero => rfl
  | succ fuel ih =>
    have hchildren := mapM_eq_storeAll (fun f n => f.shapeFrom fuel n) ih
      (fun f g n hf hfg hn => hf.shapeFrom_of_growsTo hfg fuel n hn) (f.children n) f hf
      fun c hc => hf.child_lt_size hc
    have hgrows := (duplicate_storeAll ((f.children n).map (f.shapeFrom fuel)) f hf).grows
    rw [copyFrom, get_bind, bind_of_ok hchildren, get_bind, hgrows.content_eq hn,
      hgrows.source_eq hn]
    rfl

theorem copy_eq_store (hf : f.WellFormed) (hn : n < f.size) :
    copy n f = .ok ((f.shape n).store f).1 ((f.shape n).store f).2 :=
  copyFrom_eq_store f.size n f hf hn

/-- **A copy looks like the node that is copied, and nothing else is made for it.** -/
theorem copy_duplicate (hf : f.WellFormed) (hn : n < f.size) :
    ∃ m g, copy n f = .ok m g ∧ Duplicate f g [m] [f.shape n] :=
  ⟨_, _, copy_eq_store hf hn, duplicate_store (f.shape n) f hf⟩

/-- **A copy with nothing different is a copy.** -/
theorem copyWith_eq_copy (hf : f.WellFormed) (hn : n < f.size) : copyWith n {} f = copy n f := by
  obtain ⟨ids, g, hstore⟩ : ∃ ids g, Shape.storeAll f ((f.children n).map f.shape) = (ids, g) :=
    ⟨_, _, rfl⟩
  have hchildren : (f.children n).mapM (copyFrom f.size) f = .ok ids g := by
    have h := mapM_eq_storeAll (fun g c => g.shapeFrom f.size c)
      (copyFrom_eq_store f.size) (fun f' g c hf' hfg hc => hf'.shapeFrom_of_growsTo hfg f.size c hc)
      (f.children n) f hf fun c hc => hf.child_lt_size hc
    rw [h]
    change EStateM.Result.ok (Shape.storeAll f ((f.children n).map f.shape)).1
      (Shape.storeAll f ((f.children n).map f.shape)).2 = _
    rw [hstore]
  have hmade := duplicate_storeAll ((f.children n).map f.shape) f hf
  rw [hstore] at hmade
  have habove := hmade.toMade.above (f.content n) (f.source n)
  have hcopy : copy n f = .ok g.size (g.add (f.content n) (f.source n) ids).2 := by
    rw [copy_eq_store hf hn, hf.shape_eq, Shape.store, hstore]
    rfl
  rw [hcopy, copyWith]
  refine (bind_bind_of_ok (by rw [get_bind]; exact hchildren)).trans ?_
  change EStateM.Result.ok g.size
    ((g.add (g.content n) (g.source n) ids).2.setParent g.size none) = _
  rw [hmade.grows.content_eq hn, hmade.grows.source_eq hn,
    setParent_eq_self (habove.detached _ (List.mem_singleton_self _))]

end Edit

end FluidCss
