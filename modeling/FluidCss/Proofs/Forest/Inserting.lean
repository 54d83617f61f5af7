import FluidCss.Proofs.Forest.Operations

set_option autoImplicit false

/-! # Where nodes come to stand

Nodes that are put behind a child of a container are taken from where they stand, one after the
other, and each is put at the place behind the one before it. The places count from the child as it
stood at first. So the nodes come to stand directly behind the child as long as none of them stood
in front of it; each one that did makes the children in front one fewer, and the nodes from it on
come to stand one place too far behind (`Forest.inserted_directly_behind_iff`). -/

namespace FluidCss

/-! ## In a list -/

section Places

variable {α : Type} {x : α} {xs : List α}

theorem insertAt_append_cons (place : Nat) (n x : α) (xs ys : List α) :
    insertAt (xs.length + 1 + place) n (xs ++ x :: ys) = xs ++ x :: insertAt place n ys := by
  have hplace : xs.length + 1 + place - xs.length = place + 1 := by omega
  have hle : xs.length ≤ xs.length + 1 + place := by omega
  rw [insertAt, List.take_append, List.drop_append, hplace, List.take_of_length_le hle,
    List.drop_eq_nil_of_le hle]
  simp [insertAt]

theorem drop_insertAt (place : Nat) (x : α) (xs : List α) :
    (insertAt place x xs).drop (place + 1) = xs.drop place := by
  by_cases h : place ≤ xs.length
  · rw [insertAt, List.drop_append, List.length_take, Nat.min_eq_left h]
    simp [h]
  · have hlen : xs.length ≤ place := by omega
    rw [insertAt, List.drop_eq_nil_of_le hlen, List.drop_eq_nil_of_le]
    simp

theorem filter_insertAt (p : α → Bool) (place : Nat) (x : α) (xs : List α) :
    (insertAt place x xs).filter p =
      (xs.take place).filter p ++ (if p x then [x] else []) ++ (xs.drop place).filter p := by
  rw [insertAt, List.filter_append, List.filter_cons, List.append_assoc]
  split <;> rfl

theorem filter_take_eq {p : α → Bool} {place : Nat} (h : (xs.drop place).filter p = []) :
    (xs.take place).filter p = xs.filter p := by
  conv_rhs => rw [← List.take_append_drop place xs, List.filter_append, h, List.append_nil]

theorem not_mem_take_insertAt (place : Nat) (hx : x ∉ xs) :
    x ∉ (insertAt place x xs).take (min place xs.length) := by
  intro h
  rw [insertAt, List.take_append_of_le_length (by simp)] at h
  exact hx (List.mem_of_mem_take (List.mem_of_mem_take h))

end Places

section Lists

variable {α : Type} [DecidableEq α] {x n : α} {xs ns front behind rest : List α}

/-- The list in which elements have been taken from where they stand and put at consecutive places,
one after the other. -/
def insertEach : Nat → List α → List α → List α
  | _, [], xs => xs
  | place, n :: ns, xs => insertEach (place + 1) ns (insertAt place n (xs.erase n))

theorem insertEach_concat (place : Nat) (ns : List α) (n : α) (xs : List α) :
    insertEach place (ns ++ [n]) xs =
      insertAt (place + ns.length) n ((insertEach place ns xs).erase n) := by
  induction ns generalizing place xs with
  | nil => rfl
  | cons m ns ih =>
    rw [List.cons_append, insertEach, insertEach, ih, List.length_cons]
    congr 1
    omega

theorem nodup_insertEach (place : Nat) (ns : List α) (h : xs.Nodup) :
    (insertEach place ns xs).Nodup := by
  induction ns generalizing place xs with
  | nil => exact h
  | cons n ns ih => exact ih (place + 1) (nodup_insertAt (h.erase n) h.not_mem_erase)

/-- The elements that are not moved. -/
def staying (ns xs : List α) : List α := xs.filter (· ∉ ns)

theorem length_staying_le (ns xs : List α) : (staying ns xs).length ≤ xs.length :=
  List.length_filter_le _ _

theorem nodup_staying (ns : List α) (h : xs.Nodup) : (staying ns xs).Nodup := h.filter _

theorem staying_append (ns xs ys : List α) :
    staying ns (xs ++ ys) = staying ns xs ++ staying ns ys :=
  List.filter_append _ _

theorem staying_eq_self (h : ∀ k ∈ ns, k ∉ xs) : staying ns xs = xs :=
  List.filter_eq_self.2 fun k hk => decide_eq_true fun hmem => h k hmem hk

theorem staying_eq_nil_iff : staying ns xs = [] ↔ ∀ k ∈ xs, k ∈ ns := by
  simp [staying, List.filter_eq_nil_iff]

theorem staying_append_left (ns ms xs : List α) :
    staying (ns ++ ms) xs = staying ms (staying ns xs) := by
  rw [staying, staying, staying, List.filter_filter]
  refine List.filter_congr fun k _ => ?_
  rw [Bool.eq_iff_iff]
  simp [and_comm]

/-- To move one element is to take it out. -/
theorem staying_singleton (h : xs.Nodup) (n : α) : staying [n] xs = xs.erase n := by
  rw [h.erase_eq_filter, staying]
  refine List.filter_congr fun k _ => ?_
  rw [Bool.eq_iff_iff]
  simp

theorem staying_cons (h : xs.Nodup) (n : α) (ns : List α) :
    staying (n :: ns) xs = staying ns (xs.erase n) := by
  rw [← List.singleton_append, staying_append_left, staying_singleton h]

theorem staying_concat (h : xs.Nodup) (ns : List α) (n : α) :
    staying (ns ++ [n]) xs = (staying ns xs).erase n := by
  rw [staying_append_left, staying_singleton (nodup_staying ns h)]

/-- It does not matter for what stays whether an element that is moved is still there. -/
theorem staying_erase (h : xs.Nodup) (hn : n ∈ ns) : staying ns (xs.erase n) = staying ns xs := by
  rw [h.erase_eq_filter, staying, List.filter_filter]
  refine List.filter_congr fun k _ => ?_
  have hne : k ∉ ns → k ≠ n := fun hk heq => hk (heq ▸ hn)
  simpa using hne

/-- How many elements there are behind `x`, at most, up to the last of those that are put there. -/
def reach (front ns : List α) : Nat := ns.length + (front.length - (staying ns front).length)

theorem reach_concat (hfront : front.Nodup) (ns : List α) (n : α) :
    reach front ns < reach front (ns ++ [n]) := by
  have hsub : (staying (ns ++ [n]) front).length ≤ (staying ns front).length := by
    rw [staying_concat hfront]
    exact List.length_erase_le
  have hle := length_staying_le ns front
  rw [reach, reach, List.length_append, List.length_singleton]
  omega

/-- Whether `rest` consists of the elements `ns` and of those behind `x` that stay, both in their
order, with `ns` as far in front as they are put. -/
structure IsSpread (front behind ns rest : List α) : Prop where
  moved : rest.filter (· ∈ ns) = ns
  others : staying ns rest = staying ns behind
  within : ∀ k ∈ rest.drop (reach front ns), k ∉ ns
  last : ∀ k ∈ ns.getLast?, k ∉ rest.take (min (reach front ns - 1) (rest.length - 1))

namespace IsSpread

theorem nil (front behind : List α) : IsSpread front behind [] behind where
  moved := by simp
  others := rfl
  within := by simp
  last := by simp

/-- One more element is put at the place behind the one before it. -/
theorem concat (h : IsSpread front behind ns rest) (hfront : front.Nodup) (hrest : rest.Nodup)
    (hbehind : behind.Nodup) (hn : n ∉ ns) :
    IsSpread front behind (ns ++ [n])
      (insertAt (reach front (ns ++ [n]) - 1) n (rest.erase n)) := by
  have hreach := reach_concat hfront ns n
  obtain ⟨place, hplace⟩ := Nat.exists_eq_succ_of_ne_zero (Nat.ne_zero_of_lt hreach)
  have hnot : n ∉ rest.erase n := hrest.not_mem_erase
  -- the elements that are moved before stand in front of the place, also when one is taken out
  have hdrop : ∀ k ∈ (rest.erase n).drop place, k ∉ ns := by
    intro k hk
    have hk' := ((List.erase_sublist (a := n) (l := rest)).drop place).subset hk
    exact h.within k (List.drop_subset_drop_left rest (by omega) hk')
  have hnil : ((rest.erase n).drop place).filter (· ∈ ns) = [] :=
    List.filter_eq_nil_iff.2 fun k hk => by simpa using hdrop k hk
  have hmoved : ((rest.erase n).take place).filter (· ∈ ns) = ns := by
    rw [filter_take_eq hnil, hrest.erase_eq_filter, List.filter_comm, h.moved, List.filter_eq_self]
    exact fun k hk => bne_iff_ne.2 fun heq => hn (heq ▸ hk)
  rw [hplace, Nat.succ_sub_one]
  constructor
  case moved =>
    have hcongr : ∀ ks : List α, n ∉ ks → ks.filter (· ∈ ns ++ [n]) = ks.filter (· ∈ ns) := by
      intro ks hks
      refine List.filter_congr fun k hk => ?_
      have hne : k ≠ n := fun heq => hks (heq ▸ hk)
      simp [hne]
    rw [filter_insertAt, hcongr _ fun hk => hnot (List.mem_of_mem_take hk),
      hcongr _ fun hk => hnot (List.mem_of_mem_drop hk), hmoved, hnil, List.append_nil,
      if_pos (by simp)]
  case others =>
    calc staying (ns ++ [n]) (insertAt place n (rest.erase n))
        = staying (ns ++ [n]) (rest.erase n) := by
          rw [staying, filter_insertAt, if_neg (by simp), List.append_nil, ← List.filter_append,
            List.take_append_drop, staying]
      _ = staying (ns ++ [n]) rest := staying_erase hrest (by simp)
      _ = staying (ns ++ [n]) behind := by
          rw [staying_concat hrest, staying_concat hbehind, h.others]
  case within =>
    rw [hplace, Nat.succ_eq_add_one, drop_insertAt]
    intro k hk hmem
    rcases List.mem_append.1 hmem with hmem | hmem
    · exact hdrop k hk hmem
    · rw [List.mem_singleton.1 hmem] at hk
      exact hnot (List.mem_of_mem_drop hk)
  case last =>
    intro k hk
    rw [List.getLast?_concat, Option.mem_some_iff] at hk
    have hlength : (insertAt place n (rest.erase n)).length - 1 = (rest.erase n).length := by
      simp only [insertAt, List.length_append, List.length_cons, List.length_take, List.length_drop]
      omega
    rw [← hk, hplace, Nat.succ_sub_one, hlength]
    exact not_mem_take_insertAt place hnot

/-- Where no element stood in front of `x`, none comes to stand behind one that stays. -/
theorem eq_append_of_not_mem_front (h : IsSpread front behind ns rest)
    (hfront : ∀ k ∈ ns, k ∉ front) : rest = ns ++ staying ns behind := by
  have hreach : reach front ns = ns.length := by
    rw [reach, staying_eq_self hfront, Nat.sub_self, Nat.add_zero]
  have hwithin := h.within
  rw [hreach] at hwithin
  have hback : staying ns (rest.drop ns.length) = rest.drop ns.length :=
    List.filter_eq_self.2 fun k hk => decide_eq_true (hwithin k hk)
  have hnil : (rest.drop ns.length).filter (· ∈ ns) = [] :=
    List.filter_eq_nil_iff.2 fun k hk => by simpa using hwithin k hk
  have hmoved : (rest.take ns.length).filter (· ∈ ns) = ns := (filter_take_eq hnil).trans h.moved
  -- there is no room for anything else in front
  have hfirst : rest.take ns.length = ns := by
    have hsub := List.filter_sublist (p := fun k => decide (k ∈ ns)) (l := rest.take ns.length)
    rw [hmoved] at hsub
    exact (hsub.eq_of_length_le (List.length_take_le _ _)).symm
  have hothers := h.others
  rw [← List.take_append_drop ns.length rest, staying_append, hback, hfirst,
    staying_eq_nil_iff.2 fun k hk => hk, List.nil_append] at hothers
  rw [← hothers]
  nth_rewrite 1 [← List.take_append_drop ns.length rest]
  rw [hfirst]

/-- **The elements stand directly behind `x` exactly if none of them stood in front of it**, or
nothing else is left behind it. -/
theorem eq_append_iff (h : IsSpread front behind ns rest) :
    rest = ns ++ staying ns behind ↔ (∀ k ∈ ns, k ∉ front) ∨ staying ns behind = [] := by
  constructor
  · intro hrest
    by_contra hnot
    push Not at hnot
    obtain ⟨⟨k, hk, hkfront⟩, hstay⟩ := hnot
    have hne : ns ≠ [] := List.ne_nil_of_mem hk
    have hreach : ns.length < reach front ns := by
      have hlt : (staying ns front).length < front.length :=
        List.length_filter_lt_length_iff_exists.2 ⟨k, hkfront, by simpa using hk⟩
      rw [reach]
      omega
    have hlength : ns.length < rest.length := by
      rw [hrest, List.length_append]
      exact Nat.lt_add_of_pos_right (List.length_pos_iff.2 hstay)
    -- the last one stands behind an element that stays, which is not directly behind the others
    refine h.last (ns.getLast hne) (List.getLast?_eq_some_getLast hne) ?_
    have htake : rest.take ns.length = ns := by
      rw [hrest, List.take_left]
    have hle : ns.length ≤ min (reach front ns - 1) (rest.length - 1) := by omega
    refine List.take_subset_take_left rest hle ?_
    rw [htake]
    exact List.getLast_mem hne
  · rintro (hfront | hstay)
    · exact h.eq_append_of_not_mem_front hfront
    · have hall : rest.filter (· ∈ ns) = rest :=
        List.filter_eq_self.2 fun k hk =>
          decide_eq_true (staying_eq_nil_iff.1 (h.others.trans hstay) k hk)
      rw [hstay, List.append_nil, ← hall, h.moved]

end IsSpread

/-- **What becomes of a list when elements of it, or new ones, are put behind one.** -/
theorem insertEach_eq (hnodup : (front ++ x :: behind).Nodup) (hns : ns.Nodup) (hx : x ∉ ns) :
    ∃ rest, insertEach (front.length + 1) ns (front ++ x :: behind) =
      staying ns front ++ x :: rest ∧ IsSpread front behind ns rest := by
  obtain ⟨hfront, hrest, -⟩ := List.nodup_append.1 hnodup
  have hbehind := (List.nodup_cons.1 hrest).2
  induction ns using List.reverseRecOn with
  | nil => exact ⟨behind, by simp [insertEach, staying], .nil front behind⟩
  | append_singleton ns n ih =>
    obtain ⟨hns, -, hn⟩ := List.nodup_append.1 hns
    have hn : n ∉ ns := fun hmem => hn n hmem n (by simp) rfl
    rw [List.mem_append, not_or, List.mem_singleton] at hx
    obtain ⟨rest, heq, hspread⟩ := ih hns hx.1
    have hlist := nodup_insertEach (front.length + 1) ns hnodup
    rw [heq] at hlist
    have hrest := (List.nodup_cons.1 (List.nodup_append.1 hlist).2.1).2
    refine ⟨_, ?_, hspread.concat hfront hrest hbehind hn⟩
    have herase : (staying ns front ++ x :: rest).erase n =
        staying (ns ++ [n]) front ++ x :: rest.erase n := by
      rw [hlist.erase_eq_filter, List.filter_append, List.filter_cons_of_pos (by simpa using hx.2),
        ← hrest.erase_eq_filter, ← (nodup_staying ns hfront).erase_eq_filter, staying_concat hfront]
    have hplace : front.length + 1 + ns.length =
        (staying (ns ++ [n]) front).length + 1 + (reach front (ns ++ [n]) - 1) := by
      have hle := length_staying_le (ns ++ [n]) front
      rw [reach, List.length_append, List.length_singleton]
      omega
    rw [insertEach_concat, heq, herase, hplace, insertAt_append_cons]

end Lists

/-! ## In a store -/

namespace Forest

open Operation

variable {f g h : Forest} {n c x : NodeId} {ns gone front behind : List NodeId}

/-- Whether `g` is `f` after the nodes `ns` have been given to the container `c` and the nodes
`gone` have been taken out of it. Every other container loses those of its children that are moved,
and nothing else changes; where the nodes come to stand in `c` is left open. -/
structure Moved (f g : Forest) (c : NodeId) (ns gone : List NodeId) : Prop where
  wellFormed : g.WellFormed
  size_eq : g.size = f.size
  content_eq : ∀ n, g.content n = f.content n
  source_eq : ∀ n, g.source n = f.source n
  parent_eq : ∀ n, g.parent n =
    if n ∈ gone then none else if n ∈ ns then some c else f.parent n
  children_eq : ∀ d ≠ c, g.children d = staying ns (f.children d)

namespace Moved

theorem refl (hf : f.WellFormed) (c : NodeId) : Moved f f c [] [] where
  wellFormed := hf
  size_eq := rfl
  content_eq _ := rfl
  source_eq _ := rfl
  parent_eq _ := by simp
  children_eq d _ := by simp [staying]

/-- One node is put into the container before the others. -/
theorem of_putAt {place : Nat} (hf : f.WellFormed) (hmovable : IsMovable f (n :: ns) c)
    (h : Moved (f.putAt c place n) g c ns []) : Moved f g c (n :: ns) [] where
  wellFormed := h.wellFormed
  size_eq := h.size_eq.trans (size_putAt f c place n)
  content_eq m := (h.content_eq m).trans (content_putAt f c place n m)
  source_eq m := (h.source_eq m).trans (source_putAt f c place n m)
  parent_eq m := by
    rw [h.parent_eq, parent_putAt place (hmovable.lt_size n List.mem_cons_self)]
    by_cases hm : m = n <;> simp [hm]
  children_eq d hd := by
    rw [h.children_eq d hd, hf.children_putAt place hmovable.container_lt_size, if_neg hd.symm,
      staying_cons (hf.nodup d)]

/-- A child of the container is taken out of it. -/
theorem detach (h : Moved f g c ns []) (hx : g.parent x = some c) :
    Moved f (g.detach x) c ns [x] where
  wellFormed := h.wellFormed.detach x
  size_eq := (size_detach g x).trans h.size_eq
  content_eq m := (content_detach g x m).trans (h.content_eq m)
  source_eq m := (source_detach g x m).trans (h.source_eq m)
  parent_eq m := by
    rw [parent_detach, h.parent_eq]
    simp
  children_eq d hd := by
    have hnot : x ∉ g.children d := fun hmem =>
      hd (h.wellFormed.eq_of_mem_children hmem (h.wellFormed.mem_children hx))
    rw [h.wellFormed.children_detach, List.erase_of_not_mem hnot, h.children_eq d hd]

end Moved

/-- **The container gets the nodes at consecutive places, one after the other.** -/
theorem insertFrom_moved (hf : f.WellFormed) (hmovable : IsMovable f ns c) (place : Nat) :
    ∃ g, Edit.insertFrom c place ns f = .ok () g ∧ Moved f g c ns [] ∧
      g.children c = insertEach place ns (f.children c) := by
  induction ns generalizing f place with
  | nil => exact ⟨f, rfl, .refl hf c, rfl⟩
  | cons n ns ih =>
    obtain ⟨g, hrun, hmoved, hchildren⟩ :=
      ih (hmovable.wellFormed_putAt hf place) (hmovable.putAt place) (place + 1)
    refine ⟨g, (Edit.insertFrom_cons hf place ns).trans hrun, hmoved.of_putAt hf hmovable, ?_⟩
    rw [hchildren, hf.children_putAt place hmovable.container_lt_size, if_pos rfl, insertEach]

/-- **What putting nodes behind a child of a container does, and replacing the child by them.** The
container keeps its other children in their order, and the nodes come to stand behind the child in
the given order. They stand directly behind it exactly if none of them was in front of it in the
same container, or all the children behind it are among them. The nodes are taken out of the
containers they were in, and nothing else changes. -/
theorem inserted_directly_behind_iff (hf : f.WellFormed) (hmovable : IsMovable f ns c)
    (hns : ns.Nodup) (hx : x ∉ ns) (hsplit : f.children c = front ++ x :: behind) :
    ∃ g h rest, Edit.insertAfter c x ns f = .ok () g ∧ Edit.replaceWith x ns f = .ok () h ∧
      Moved f g c ns [] ∧ g.children c = staying ns front ++ x :: rest ∧
      Moved f h c ns [x] ∧ h.children c = staying ns front ++ rest ∧
      IsSpread front behind ns rest ∧
      (rest = ns ++ staying ns behind ↔ (∀ n ∈ ns, n ∉ front) ∨ staying ns behind = []) := by
  have hnodup := hf.nodup c
  rw [hsplit] at hnodup
  have hmem : x ∈ f.children c := by simp [hsplit]
  have hfront : x ∉ front := fun hmem => (List.nodup_append.1 hnodup).2.2 x hmem x (by simp) rfl
  have hindex : (f.children c).idxOf x = front.length := by
    rw [hsplit, List.idxOf_append_of_notMem hfront, List.idxOf_cons_self, Nat.add_zero]
  obtain ⟨g, hrun, hmoved, hchildren⟩ := insertFrom_moved hf hmovable (front.length + 1)
  obtain ⟨rest, heach, hspread⟩ := insertEach_eq hnodup hns hx
  have hinsert : Edit.insertAfter c x ns f = .ok () g := by
    rw [Edit.insertAfter, bind_of_ok (Edit.indexOf_of_mem hmem), hindex, hrun]
  have hg : g.children c = staying ns front ++ x :: rest := by
    rw [hchildren, hsplit, heach]
  have hparent : g.parent x = some c := hmoved.wellFormed.parent_of_mem (by simp [hg])
  refine ⟨g, g.detach x, rest, hinsert, ?_, hmoved, hg, hmoved.detach hparent, ?_, hspread,
    hspread.eq_append_iff⟩
  · rw [Edit.replaceWith, get_bind, hf.parent_of_mem hmem]
    exact (bind_of_ok hinsert).trans (Edit.remove_of_wellFormed hmoved.wellFormed x)
  · have hstay : x ∉ staying ns front := fun h => hfront (List.mem_of_mem_filter h)
    rw [hmoved.wellFormed.children_detach, hg, List.erase_append_right _ hstay,
      List.erase_cons_head]

/-- The store of a sheet with two rules, `3` with the declarations `0`, `1`, `2` and `5` with the
declaration `4`. The top is `6`, and `7` is a declaration that has just been made. -/
def twoRules : Forest :=
  let sheet : Sheet :=
    ⟨[.rule ".a" none [.declaration "x" "1" none, .declaration "y" "2" none,
        .declaration "z" "3" none], .rule ".b" none [.declaration "u" "4" none]], none, none⟩
  ((sheet.store .empty).2.add (.declaration "v" "5") none []).2

theorem wellFormed_twoRules : twoRules.WellFormed :=
  (Sheet.store_ok wellFormed_empty _).1.add _ _ (by simp) (by simp) (by simp)

theorem isMovable_twoRules (hns : ∀ n ∈ ns, n < 8 ∧ n ≠ 3 ∧ n ≠ 6) : IsMovable twoRules ns 3 where
  container_lt_size := by decide
  lt_size n hn := (hns n hn).1
  not_isAbove n hn := by
    refine not_isAbove_of_parent (hns n hn).2.1 fun p hp => ?_
    obtain rfl : p = 6 := (Option.some.inj hp).symm
    exact not_isAbove_of_parent (hns n hn).2.2 fun p hp => absurd hp nofun

/-- A later child of the same rule, a new node and a child of another rule, put behind the first
child and in its place. -/
theorem inserted_directly_behind_iff_mixedNodes :
    ∃ g h, Edit.insertAfter 3 0 [2, 7, 4] twoRules = .ok () g ∧
      Edit.replaceWith 0 [2, 7, 4] twoRules = .ok () h ∧
      g.children 3 = [0, 2, 7, 4, 1] ∧ g.children 5 = [] ∧ g.parent 7 = some 3 ∧
      h.children 3 = [2, 7, 4, 1] ∧ h.children 5 = [] ∧ h.parent 0 = none := by
  have hmovable : IsMovable twoRules [2, 7, 4] 3 := isMovable_twoRules (by decide)
  have hsplit : twoRules.children 3 = [] ++ 0 :: [1, 2] := by decide
  obtain ⟨g, h, rest, hinsert, hreplace, hg, hgc, hh, hhc, -, hiff⟩ :=
    inserted_directly_behind_iff wellFormed_twoRules hmovable (by decide) (by decide) hsplit
  rw [hiff.2 (.inl (by decide))] at hgc hhc
  exact ⟨g, h, hinsert, hreplace, hgc, hg.children_eq 5 (by decide), hg.parent_eq 7, hhc,
    hh.children_eq 5 (by decide), hh.parent_eq 0⟩

/-- A declaration that is moved behind its successor, or put in the place of it, comes to stand
behind the declaration that follows. -/
theorem inserted_behind_next_earlierChild :
    twoRules.WellFormed ∧ IsMovable twoRules [0] 3 ∧ twoRules.children 3 = [0] ++ 1 :: [2] ∧
      ∃ g h, Edit.insertAfter 3 1 [0] twoRules = .ok () g ∧
        Edit.replaceWith 1 [0] twoRules = .ok () h ∧
        g.children 3 = [1, 2, 0] ∧ g.children 3 ≠ staying [0] [0] ++ 1 :: ([0] ++ staying [0] [2]) ∧
        h.children 3 = [2, 0] ∧ h.children 3 ≠ staying [0] [0] ++ ([0] ++ staying [0] [2]) := by
  refine ⟨wellFormed_twoRules, isMovable_twoRules (by decide), by decide, _, _, rfl, rfl, ?_⟩
  decide

end Forest

end FluidCss
