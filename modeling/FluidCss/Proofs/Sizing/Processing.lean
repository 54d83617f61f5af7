import FluidCss.Proofs.Sizing.Refinement

set_option autoImplicit false

/-! # What comes of a text that is read

Processing a text that can be read ends as planning for its sheet does. Where the plan fails, that is
the failure; where it succeeds, what is printed is the tree that the recursion over the sheet gives,
the warnings are those of the plan, and the log goes on with the expansions that are carried
out. -/

namespace FluidCss

open Forest

/-- What has been reported once expansions have been carried out. -/
def Report.carriedOut (r : Report) (f : Forest) (es : List Expansion) : Report :=
  { r with events := r.events ++ es.map (·.event f) ++ [.applied es.length] }

/-- Each expansion that is carried out is put down in the log. -/
theorem Run.report_expandAll {s t : Session} {bound : NodeId} {es : List Expansion}
    (h : Ready s.forest bound es) (hrun : expandAll es s = .ok () t) :
    t.report = { s.report with events := s.report.events ++ es.map (·.event s.forest) } := by
  induction es generalizing s with
  | nil =>
    obtain ⟨-, rfl⟩ := pure_eq_ok_iff.1 hrun
    rw [List.map_nil, List.append_nil]
  | cons e es ih =>
    obtain ⟨f, hexpand, hfirst⟩ := h.expand_ok (List.mem_cons_self ..)
    have hstep := ofEdit_eq_ok_iff.2 ⟨f, hexpand, rfl⟩
    have hlog := ofReporting_log (e.event s.forest) { s with forest := f }
    rw [expandAll, bind_of_ok hstep, bind_of_ok hlog] at hrun
    have hrest := ih (h.tail hfirst) hrun
    -- no expansion changes what a node is
    have hsame : ∀ e' ∈ es, e'.event f = e'.event s.forest := by
      intro e' _
      rw [Expansion.event, hfirst.content_eq, hfirst.content_eq]
      rfl
    rw [hrest, List.map_cons, List.map_congr_left hsame, List.append_assoc]
    rfl

section Plan

variable {s t : Session} {root : NodeId} {sheet : Sheet} {options : Options} {es : List Expansion}

/-- **A plan for a sheet is carried out**, and the store then holds what the recursion over the sheet
gives. -/
theorem apply_of_plan_ok (hs : s.forest.WellFormed) (hsheet : s.forest.HoldsSheet root sheet)
    (hplain : Node.arePlain sheet.nodes = true) (hplan : Run.plan options root s = .ok es t) :
    ∃ ex u, sheet.expanded options s.report = .ok ex t.report ∧ ex.outputs = es.map (·.output) ∧
      Run.apply options root s = .ok () u ∧ u.forest.toCss? root = some (Node.toCss ex.nodes) ∧
      u.report = t.report.carriedOut t.forest es := by
  have hrules := hsheet.rulesHoldDeclarations hs hplain
  obtain ⟨⟨last, hinterpolations⟩, hplanned⟩ := Run.plan_ok hs hrules hplan
  have hready := Run.ready_of_plan_ok hs hrules hplan
  obtain ⟨u, hu, hmoved⟩ := Run.expandAll_ok hready
  have hcarried : Carried s.forest t.forest u.forest (s.forest.rulesBelow root) es :=
    ⟨hs, fun _ hrule => hrules.isPlainRule hs hrule, hs.nodup_rulesBelow root, hplanned, hready,
      hmoved⟩
  have hroot : s.forest.root? root = some root := by
    rw [hs.root?_eq, if_pos (by rw [hsheet.content]; rfl)]
  have hbelow : s.forest.rulesBelow root =
      ((s.forest.children root).flatMap fun n => n :: s.forest.walk n).filter
        fun k => (s.forest.content k).isRule := by rw [rulesBelow, hs.walk_eq]
  rw [hbelow] at hinterpolations hplanned
  obtain ⟨nodes, hnodes, hheld⟩ := hcarried.expandedAll_ok hsheet.content sheet.nodes hplain
    hsheet.nodes (fun n hn => hs.parent_of_mem hn) (by rw [hsheet.content]; rfl) hroot
    (fun k hk => hbelow ▸ hk) (List.Sublist.refl es) ⟨hinterpolations, hplanned.keys_eq⟩
  rw [← hcarried.children_eq hsheet.lt_size] at hheld
  have hlog : Run.ofReporting (Reporting.log (.applied es.length)) u =
      .ok () { u with report := t.report.carriedOut t.forest es } := by
    rw [Run.ofReporting_log, Run.report_expandAll hready hu]
    rfl
  refine ⟨⟨last, es.map Expansion.output, nodes⟩,
    { u with report := t.report.carriedOut t.forest es }, hnodes, rfl, ?_, ?_, rfl⟩
  · rw [Run.apply, bind_of_ok hplan, bind_of_ok hu, hlog]
  · rw [toCss?, hmoved.wellFormed.nodesBelow?_of_holds hheld]
    rfl

end Plan

section Process

variable {css : String} {name : Option String} {sheet : Sheet} {options : Options}

theorem Sheet.expand_singleton (sheet : Sheet) (options : Options) :
    sheet.expand [options] =
      (do Run.apply options sheet.session.1; Run.render sheet.session.1 : Run String)
        sheet.session.2 := by
  have hsingle : Run.applyAll [options] sheet.session.1 = Run.apply options sheet.session.1 := by
    simp [Run.applyAll]
  rw [← hsingle]
  rfl

/-- Where planning fails, expanding fails likewise. -/
theorem Sheet.expand_of_plan_error {e : Failure} {t : Session}
    (hplan : Run.plan options sheet.session.1 sheet.session.2 = .error e t) :
    sheet.expand [options] = .error e t := by
  rw [expand_singleton, Run.apply, bind_of_error (bind_of_error hplan)]

variable (hparse : Sheet.parse css name = .ok sheet)

include hparse

/-- Where planning succeeds, the tree is printed that the recursion over the sheet gives. -/
theorem Sheet.expand_of_plan_ok {es : List Expansion} {t : Session}
    (hplan : Run.plan options sheet.session.1 sheet.session.2 = .ok es t) :
    ∃ ex u, sheet.expanded options .empty = .ok ex t.report ∧ ex.outputs = es.map (·.output) ∧
      sheet.expand [options] = .ok (Node.toCss ex.nodes) u ∧
      u.report = t.report.carriedOut t.forest es := by
  obtain ⟨ex, u, hexpanded, houtputs, happly, hcss, hreport⟩ := apply_of_plan_ok
    sheet.session_ok.1 sheet.session_ok.2 (arePlain_of_parse hparse) hplan
  refine ⟨ex, u, hexpanded, houtputs, ?_, hreport⟩
  rw [expand_singleton, bind_of_ok happly, Run.render, get_bind, hcss]
  rfl

/-- Where planning fails, processing fails likewise. -/
theorem process_of_plan_error {e : Failure} {t : Session}
    (hplan : Run.plan options sheet.session.1 sheet.session.2 = .error e t) :
    process options css name = .error e := by
  rw [process, processWith, hparse]
  dsimp only
  rw [Sheet.expand_of_plan_error hplan]

/-- Where planning succeeds, the tree is printed that the recursion over the sheet gives. -/
theorem process_of_plan_ok {es : List Expansion} {t : Session}
    (hplan : Run.plan options sheet.session.1 sheet.session.2 = .ok es t) :
    ∃ ex p, sheet.expanded options .empty = .ok ex t.report ∧ process options css name = .ok p ∧
      p.css = Node.toCss ex.nodes ∧ p.report.warnings = t.report.warnings := by
  obtain ⟨ex, u, hexpanded, -, hexpand, hreport⟩ := Sheet.expand_of_plan_ok hparse hplan
  refine ⟨ex, ⟨Node.toCss ex.nodes, u.report⟩, hexpanded, ?_, rfl, by rw [hreport]; rfl⟩
  rw [process, processWith, hparse]
  dsimp only
  rw [hexpand]

/-- What has been processed is the tree that the recursion over the sheet gives. -/
theorem exists_expanded_of_process_ok {p : Processed} (h : process options css name = .ok p) :
    ∃ ex r, sheet.expanded options .empty = .ok ex r ∧ p.css = Node.toCss ex.nodes ∧
      p.report.warnings = r.warnings := by
  cases hplan : Run.plan options sheet.session.1 sheet.session.2 with
  | ok es t =>
    obtain ⟨ex, p', hexpanded, hprocess, hcss, hwarnings⟩ := process_of_plan_ok hparse hplan
    obtain rfl := Except.ok.inj (h.symm.trans hprocess)
    exact ⟨ex, t.report, hexpanded, hcss, hwarnings⟩
  | error e t =>
    rw [process_of_plan_error hparse hplan] at h
    exact absurd h (by simp)

end Process

end FluidCss
