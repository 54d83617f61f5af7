import FluidCss.Forest.Walk
import FluidCss.Proofs.Forest.Representation

set_option autoImplicit false

/-! # Walking through a well-formed store

The fuel of `Forest.walk` never runs out on a well-formed store, which gives an equation without
fuel (`WellFormed.walk_eq`). From it: each descendant is met once, and has a parent that is met
before it or is the node that the walk starts at. -/

namespace FluidCss

namespace Forest

variable {f g : Forest} {n m : NodeId}

theorem walkFrom_eq_of_rank {rank : NodeId → Nat}
    (hrank : ∀ n p, n ∈ f.children p → rank n < rank p) (fuel fuel' : Nat) (ns : List NodeId)
    (h : ∀ n ∈ ns, rank n < fuel) (h' : ∀ n ∈ ns, rank n < fuel') :
    f.walkFrom fuel ns = f.walkFrom fuel' ns := by
  induction fuel generalizing fuel' ns with
  | zero =>
    cases ns with
    | nil => cases fuel' <;> rfl
    | cons n ns => exact absurd (h n (by simp)) (Nat.not_lt_zero _)
  | succ fuel ih =>
    cases fuel' with
    | zero =>
      cases ns with
      | nil => rfl
      | cons n ns => exact absurd (h' n (by simp)) (Nat.not_lt_zero _)
    | succ fuel' =>
      rw [walkFrom, walkFrom]
      refine List.flatMap_congr ?_
      intro n hn
      have hchild : ∀ c ∈ f.children n, rank c < fuel ∧ rank c < fuel' := by
        intro c hc
        have hlt := hrank c n hc
        exact ⟨Nat.lt_of_lt_of_le hlt (Nat.le_of_lt_succ (h n hn)),
          Nat.lt_of_lt_of_le hlt (Nat.le_of_lt_succ (h' n hn))⟩
      rw [ih fuel' (f.children n) (fun c hc => (hchild c hc).1) fun c hc => (hchild c hc).2]

/-- **The descendants of a node are its children, each followed by its own descendants.** -/
theorem WellFormed.walk_eq (hf : f.WellFormed) (n : NodeId) :
    f.walk n = (f.children n).flatMap fun c => c :: f.walk c := by
  obtain ⟨rank, hrank, hle⟩ := hf.exists_rank_le
  have hlt : ∀ k p, k ∈ f.children p → rank k < rank p := by
    intro k p hk
    exact hrank k p (hf.parent_of_mem hk)
  rw [walk, walkFrom]
  refine List.flatMap_congr ?_
  intro c _
  rw [walk, walkFrom_eq_of_rank hlt f.size (f.size + 1) (f.children c)]
  · exact fun k hk => Nat.lt_of_lt_of_le (hlt k c hk) (hle c)
  · exact fun k _ => Nat.lt_succ_of_le (hle k)

theorem WellFormed.walk_of_no_children (hf : f.WellFormed) (h : f.children n = []) :
    f.walk n = [] := by
  rw [hf.walk_eq, h, List.flatMap_nil]

/-- The descendants of a node are found by a descent along the children. -/
theorem WellFormed.walk_induction (hf : f.WellFormed) {P : NodeId → Prop}
    (step : ∀ n, (∀ c ∈ f.children n, P c) → P n) (n : NodeId) : P n := by
  obtain ⟨rank, hrank⟩ := hf.acyclic
  induction hk : rank n using Nat.strong_induction_on generalizing n with
  | _ k ih =>
    refine step n fun c hc => ih (rank c) ?_ c rfl
    rw [← hk]
    exact hrank c n (hf.parent_of_mem hc)

/-- Every descendant of a node has a parent, and the node is above it. -/
theorem WellFormed.exists_parent_of_mem_walk (hf : f.WellFormed) (n : NodeId) :
    ∀ m ∈ f.walk n, ∃ p, f.parent m = some p ∧ f.IsAbove n p := by
  induction n using hf.walk_induction with
  | step n ih =>
    intro m hm
    rw [hf.walk_eq, List.mem_flatMap] at hm
    obtain ⟨c, hc, hm⟩ := hm
    have hparent := hf.parent_of_mem hc
    rcases List.mem_cons.1 hm with rfl | hm
    · exact ⟨n, hparent, .refl f n⟩
    · obtain ⟨p, hp, habove⟩ := ih c hc m hm
      exact ⟨p, hp, Relation.ReflTransGen.tail habove hparent⟩

theorem WellFormed.rank_le_of_isAbove {rank : NodeId → Nat}
    (hrank : ∀ n p, f.parent n = some p → rank n < rank p) {a : NodeId} (h : f.IsAbove a n) :
    rank n ≤ rank a := by
  induction h with
  | refl => exact Nat.le_refl _
  | tail _ hp ih => exact ih.trans (Nat.le_of_lt (hrank _ _ hp))

/-- No node is its own descendant. -/
theorem WellFormed.not_mem_walk_self (hf : f.WellFormed) (n : NodeId) : n ∉ f.walk n := by
  intro hn
  obtain ⟨rank, hrank⟩ := hf.acyclic
  obtain ⟨p, hp, habove⟩ := hf.exists_parent_of_mem_walk n n hn
  exact absurd (hrank n p hp) (Nat.not_lt_of_le (rank_le_of_isAbove hrank habove))

/-- Two children of a node have no descendant in common. -/
theorem WellFormed.eq_of_isAbove (hf : f.WellFormed) {c d : NodeId} (hc : f.parent c = some n)
    (hd : f.parent d = some n) (hcm : f.IsAbove c m) (hdm : f.IsAbove d m) : c = d := by
  obtain ⟨rank, hrank⟩ := hf.acyclic
  have hunique : Relator.RightUnique fun k p => f.parent k = some p := by
    intro k p q hp hq
    rw [hp] at hq
    exact Option.some.inj hq
  -- one of the two is above the other, and above its parent if it is not the same
  have key : ∀ a b, f.parent a = some n → f.parent b = some n → f.IsAbove b a → a = b := by
    intro a b ha hb hab
    rcases isAbove_iff.1 hab with rfl | ⟨p, hp, hbp⟩
    · rfl
    · rw [ha] at hp
      obtain rfl := Option.some.inj hp
      exact absurd (hrank b _ hb) (Nat.not_lt_of_le (rank_le_of_isAbove hrank hbp))
  rcases Relation.ReflTransGen.total_of_right_unique hunique hcm hdm with h | h
  · exact key c d hc hd h
  · exact (key d c hd hc h).symm

/-- **Each descendant is met once.** -/
theorem WellFormed.nodup_walk (hf : f.WellFormed) (n : NodeId) : (f.walk n).Nodup := by
  induction n using hf.walk_induction with
  | step n ih =>
    rw [hf.walk_eq, List.nodup_flatMap]
    refine ⟨fun c hc => List.nodup_cons.2 ⟨hf.not_mem_walk_self c, ih c hc⟩, ?_⟩
    refine (hf.nodup n).imp_of_mem ?_
    intro c d hc hd hne m hmc hmd
    have habove : ∀ k ∈ f.children n, m ∈ k :: f.walk k → f.IsAbove k m := by
      intro k _ hm
      rcases List.mem_cons.1 hm with rfl | hm
      · exact .refl f m
      · obtain ⟨p, hp, hkp⟩ := hf.exists_parent_of_mem_walk k m hm
        exact .parent hp hkp
    exact hne (hf.eq_of_isAbove (hf.parent_of_mem hc) (hf.parent_of_mem hd) (habove c hc hmc)
      (habove d hd hmd))

theorem WellFormed.nodup_rulesBelow (hf : f.WellFormed) (n : NodeId) : (f.rulesBelow n).Nodup :=
  (hf.nodup_walk n).filter _

/-! ## Climbing to the top -/

/-- What is above a node is found by a climb along the parents. -/
theorem WellFormed.climb_induction (hf : f.WellFormed) {P : NodeId → Prop}
    (step : ∀ n, (∀ p, f.parent n = some p → P p) → P n) (n : NodeId) : P n := by
  obtain ⟨rank, hrank, hle⟩ := hf.exists_rank_le
  induction hk : f.size - rank n using Nat.strong_induction_on generalizing n with
  | _ k ih =>
    refine step n fun p hp => ih (f.size - rank p) ?_ p rfl
    have hlt := hrank n p hp
    have hp_le := hle p
    omega

theorem rootFrom_eq_of_rank {rank : NodeId → Nat} {bound : Nat}
    (hrank : ∀ n p, f.parent n = some p → rank n < rank p) (hle : ∀ n, rank n ≤ bound)
    (fuel fuel' : Nat) (n : NodeId) (h : bound < fuel + rank n) (h' : bound < fuel' + rank n) :
    f.rootFrom fuel n = f.rootFrom fuel' n := by
  have hn := hle n
  induction fuel generalizing fuel' n with
  | zero => omega
  | succ fuel ih =>
    cases fuel' with
    | zero => omega
    | succ fuel' =>
      rw [rootFrom, rootFrom]
      by_cases hroot : (f.content n).isRoot = true
      · rw [if_pos hroot, if_pos hroot]
      · rw [if_neg hroot, if_neg hroot]
        cases hp : f.parent n with
        | none => rfl
        | some p =>
          have hlt := hrank n p hp
          exact ih fuel' p (by omega) (by omega) (hle p)

/-- **The top of the sheet that a node belongs to is the node itself or that of its parent.** -/
theorem WellFormed.root?_eq (hf : f.WellFormed) (n : NodeId) :
    f.root? n = if (f.content n).isRoot then some n else (f.parent n).bind f.root? := by
  obtain ⟨rank, hrank, hle⟩ := hf.exists_rank_le
  rw [root?, rootFrom]
  by_cases hroot : (f.content n).isRoot = true
  · rw [if_pos hroot, if_pos hroot]
  · rw [if_neg hroot, if_neg hroot]
    cases hp : f.parent n with
    | none => rfl
    | some p =>
      have hlt := hrank n p hp
      exact rootFrom_eq_of_rank hrank hle _ _ p (by omega) (by omega)

/-- The top of the sheet of a node is a node of the store. -/
theorem WellFormed.root?_lt_size (hf : f.WellFormed) (hn : n < f.size) (h : f.root? n = some m) :
    m < f.size := by
  induction n using hf.climb_induction with
  | step n ih =>
    rw [hf.root?_eq] at h
    split at h
    · obtain rfl := Option.some.inj h
      exact hn
    · obtain ⟨p, hp, hm⟩ := Option.bind_eq_some_iff.1 h
      exact ih p hp (hf.parent_lt_size hp) hm

/-- Making nodes leaves the sheet that a node belongs to. -/
theorem WellFormed.root?_of_growsTo (hf : f.WellFormed) (hg : g.WellFormed) (hfg : f.GrowsTo g)
    (n : NodeId) (hn : n < f.size) : g.root? n = f.root? n := by
  induction n using hf.climb_induction with
  | step n ih =>
    rw [hf.root?_eq, hg.root?_eq, hfg.content_eq hn, hfg.parent_eq hn]
    cases hp : f.parent n with
    | none => rfl
    | some p => rw [Option.bind_some, Option.bind_some, ih p hp (hf.parent_lt_size hp)]

end Forest

end FluidCss
