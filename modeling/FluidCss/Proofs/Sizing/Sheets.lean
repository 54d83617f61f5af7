import FluidCss.Process
import FluidCss.Proofs.Grammar.Reading
import FluidCss.Proofs.Sizing.Planning

set_option autoImplicit false

/-! # Sheets in a store

A sheet that has been read has rules of declarations only, and so has a store that holds it. -/

namespace FluidCss

/-! ## Rules of declarations -/

namespace Node

mutual

/-- Whether the rules in a node hold declarations only. -/
def isPlain : Node → Bool
  | declaration .. => true
  | rule _ _ nodes => nodes.all isDeclaration
  | atStatement .. => true
  | atBlock _ _ _ nodes => arePlain nodes

/-- Whether the rules in nodes hold declarations only. -/
def arePlain : List Node → Bool
  | [] => true
  | n :: ns => n.isPlain && arePlain ns

end

theorem arePlain_append (ns ms : List Node) :
    arePlain (ns ++ ms) = (arePlain ns && arePlain ms) := by
  induction ns with
  | nil => rfl
  | cons n ns ih => rw [List.cons_append, arePlain, arePlain, ih, Bool.and_assoc]

end Node

namespace Phrase

/-- Phrases that may stand in a rule are declarations and semicolons. -/
theorem all_isDeclaration_nodesAll (ps : List Phrase) (h : areValid .rule ps = true) :
    (nodesAll ps).all Node.isDeclaration = true := by
  induction ps with
  | nil => rfl
  | cons p ps ih =>
    rw [areValid, Bool.and_eq_true] at h
    rw [nodesAll, List.all_append, Bool.and_eq_true]
    refine ⟨?_, ih h.2⟩
    have hp := h.1
    cases p <;> simp_all [isValid, nodes, Node.isDeclaration]

mutual

theorem arePlain_nodes (place : Place) (p : Phrase) (h : p.isValid place = true) :
    Node.arePlain p.nodes = true := by
  cases p with
  | declaration name colon value => rfl
  | semicolon mark => rfl
  | rule selector opening body closing =>
    have hbody : areValid .rule body = true := by
      rw [isValid] at h
      simp only [Bool.and_eq_true] at h
      exact h.1.2
    simp [nodes, Node.arePlain, Node.isPlain, all_isDeclaration_nodesAll body hbody]
  | atStatement keyword params ending => rfl
  | atBlock keyword params opening body closing =>
    have hbody : areValid .block body = true := by
      rw [isValid] at h
      simp only [Bool.and_eq_true] at h
      exact h.1.2
    simp [nodes, Node.arePlain, Node.isPlain, arePlain_nodesAll .block body hbody]

theorem arePlain_nodesAll (place : Place) (ps : List Phrase) (h : areValid place ps = true) :
    Node.arePlain (nodesAll ps) = true := by
  cases ps with
  | nil => rfl
  | cons p ps =>
    rw [areValid, Bool.and_eq_true] at h
    rw [nodesAll, Node.arePlain_append, arePlain_nodes place p h.1,
      arePlain_nodesAll place ps h.2]
    rfl

end

end Phrase

/-- **The rules of a sheet that has been read hold declarations only.** -/
theorem arePlain_of_parse {css : String} {name : Option String} {sheet : Sheet}
    (h : Sheet.parse css name = .ok sheet) : Node.arePlain sheet.nodes = true := by
  obtain ⟨hnodes, -, -⟩ := (parse_eq_ok_iff css name sheet).1 h
  obtain ⟨ps, ⟨hvalid, -⟩, hps⟩ := (parseNodes_eq_ok_iff _ _).1 hnodes
  rw [← hps]
  exact Phrase.arePlain_nodesAll .sheet ps hvalid

/-! ## In a store -/

namespace Forest

variable {f : Forest} {root : NodeId} {sheet : Sheet}

/-- Declarations are held by nodes that hold nothing. -/
theorem isDeclaration_of_holdsAll (ts : List Node) (ns : List NodeId)
    (hts : ts.all Node.isDeclaration = true) (h : f.HoldsAll ns ts) :
    ∀ d ∈ ns, (f.content d).isDeclaration = true ∧ f.children d = [] := by
  induction ts generalizing ns with
  | nil =>
    cases ns with
    | nil => simp
    | cons n ns => exact absurd h (by simp [HoldsAll])
  | cons t ts ih =>
    cases ns with
    | nil => simp
    | cons n ns =>
      rw [List.all_cons, Bool.and_eq_true] at hts
      intro d hd
      rcases List.mem_cons.1 hd with rfl | hd
      · cases t with
        | declaration prop value source =>
          obtain ⟨hcontent, -, hchildren⟩ := h.1
          rw [hcontent]
          exact ⟨rfl, hchildren⟩
        | _ => exact absurd hts.1 (by simp [Node.isDeclaration])
      · exact ih ns hts.2 h.2 d hd

/-- A rule that is held is plain. -/
theorem isPlainRule_of_holds {n : NodeId} (hn : n < f.size)
    {selector : String} {source : Option Position} {nodes : List Node}
    (hplain : nodes.all Node.isDeclaration = true) (h : f.Holds n (.rule selector source nodes)) :
    f.IsPlainRule n where
  lt_size := hn
  isRule := by rw [h.1]; rfl
  isDeclaration d hd := (isDeclaration_of_holdsAll nodes _ hplain h.2.2 d hd).1
  children_eq d hd := (isDeclaration_of_holdsAll nodes _ hplain h.2.2 d hd).2

mutual

theorem holdDeclarations_of_holds (hf : f.WellFormed) (t : Node) (n : NodeId)
    (ht : t.isPlain = true) (h : f.Holds n t) :
    ∀ rule ∈ n :: f.walk n, (f.content rule).isRule = true → ∀ d ∈ f.children rule,
      (f.content d).isDeclaration = true ∧ f.children d = [] := by
  intro rule hmem hrule
  cases t with
  | declaration prop value source =>
    obtain ⟨hcontent, -, hchildren⟩ := h
    rw [hf.walk_of_no_children hchildren, List.mem_singleton] at hmem
    rw [hmem, hchildren]
    simp
  | rule selector source nodes =>
    have hdeclarations := isDeclaration_of_holdsAll nodes _ ht h.2.2
    rcases List.mem_cons.1 hmem with rfl | hmem
    · exact hdeclarations
    · rw [hf.walk_eq, List.mem_flatMap] at hmem
      obtain ⟨c, hc, hmem⟩ := hmem
      rw [hf.walk_of_no_children (hdeclarations c hc).2, List.mem_singleton] at hmem
      rw [hmem, (hdeclarations c hc).2]
      simp
  | atStatement name params source =>
    obtain ⟨hcontent, -, hchildren⟩ := h
    rw [hf.walk_of_no_children hchildren, List.mem_singleton] at hmem
    rw [hmem, hchildren]
    simp
  | atBlock name params source nodes =>
    obtain ⟨hcontent, -, hall⟩ := h
    rcases List.mem_cons.1 hmem with rfl | hmem
    · rw [hcontent] at hrule
      exact absurd hrule (by simp [Content.isRule])
    · rw [hf.walk_eq] at hmem
      exact holdDeclarations_of_holdsAll hf nodes _ ht hall rule hmem hrule

theorem holdDeclarations_of_holdsAll (hf : f.WellFormed) (ts : List Node) (ns : List NodeId)
    (hts : Node.arePlain ts = true) (h : f.HoldsAll ns ts) :
    ∀ rule ∈ ns.flatMap (fun n => n :: f.walk n), (f.content rule).isRule = true →
      ∀ d ∈ f.children rule, (f.content d).isDeclaration = true ∧ f.children d = [] := by
  intro rule hmem hrule
  cases ts with
  | nil =>
    cases ns with
    | nil => exact absurd hmem (by simp)
    | cons n ns => exact absurd h (by simp [HoldsAll])
  | cons t ts =>
    cases ns with
    | nil => exact absurd h (by simp [HoldsAll])
    | cons n ns =>
      rw [Node.arePlain, Bool.and_eq_true] at hts
      rw [List.flatMap_cons, List.mem_append] at hmem
      rcases hmem with hmem | hmem
      · exact holdDeclarations_of_holds hf t n hts.1 h.1 rule hmem hrule
      · exact holdDeclarations_of_holdsAll hf ts ns hts.2 h.2 rule hmem hrule

end

/-- Whether a node is the top of a sheet, with the statements of the sheet below it. -/
structure HoldsSheet (f : Forest) (root : NodeId) (sheet : Sheet) : Prop where
  content : f.content root = .root sheet.input sheet.name
  nodes : f.HoldsAll (f.children root) sheet.nodes

theorem HoldsSheet.rulesHoldDeclarations (h : f.HoldsSheet root sheet) (hf : f.WellFormed)
    (hplain : Node.arePlain sheet.nodes = true) : f.RulesHoldDeclarations root := by
  intro rule hrule
  obtain ⟨hwalk, hcontent⟩ := List.mem_filter.1 hrule
  rw [hf.walk_eq] at hwalk
  exact holdDeclarations_of_holdsAll hf sheet.nodes _ hplain h.nodes rule hwalk hcontent

theorem wellFormed_empty : empty.WellFormed where
  listed_iff n m := by simp [empty, children, parent, cell, Cell.absent]
  nodup m := by simp [empty, children, cell, Cell.absent]
  acyclic := ⟨fun _ => 0, fun n m h => by simp [empty, parent, cell, Cell.absent] at h⟩

end Forest

namespace Sheet

/-- A sheet that is put into a store is held by it. -/
theorem store_ok {f : Forest} (hf : f.WellFormed) (sheet : Sheet) :
    (sheet.store f).2.WellFormed ∧ (sheet.store f).2.HoldsSheet (sheet.store f).1 sheet := by
  have hstored := Forest.stored_storeAll sheet.nodes f hf
  have hmade := hstored.toMade.above (.root sheet.input sheet.name) none
  refine ⟨hmade.wellFormed, ?_, ?_⟩
  · exact (Forest.content_add _ _ _ _ _).trans (if_pos rfl)
  · have hchildren : (sheet.store f).2.children (sheet.store f).1 =
        (Node.storeAll f sheet.nodes).1 := (Forest.children_add _ _ _ _ _).trans (if_pos rfl)
    rw [hchildren]
    exact hstored.holds_add _ _

/-- The session of a sheet holds it. -/
theorem session_ok (sheet : Sheet) :
    sheet.session.2.forest.WellFormed ∧
      sheet.session.2.forest.HoldsSheet sheet.session.1 sheet :=
  sheet.store_ok Forest.wellFormed_empty

end Sheet

end FluidCss
