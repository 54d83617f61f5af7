import FluidCss.Proofs.Sizing.Effect
import FluidCss.Proofs.Sizing.Sheets

set_option autoImplicit false

/-! # A sheet is expanded as a whole or not at all

A run fails while it is planned or not at all, and planning leaves all nodes of the store as they
are. -/

namespace FluidCss

open Forest

namespace Run

variable {options : Options} {root : NodeId} {s t : Session} {e : Failure}

/-- A run that fails has failed in its plan, where every plan can be carried out. -/
theorem plan_eq_error_of_apply
    (hcarried : ∀ es t, plan options root s = .ok es t → ∃ u, expandAll es t = .ok () u)
    (h : apply options root s = .error e t) : plan options root s = .error e t := by
  cases hplan : plan options root s with
  | error e' t' =>
    rw [apply, bind_of_error hplan] at h
    obtain ⟨rfl, rfl⟩ := EStateM.Result.error.inj h
    rfl
  | ok es t' =>
    obtain ⟨u, hu⟩ := hcarried es t' hplan
    rw [apply, bind_of_ok hplan, bind_of_ok hu] at h
    exact absurd h nofun

end Run

/-- The rules of a sheet that has been read hold declarations only, also in a store. -/
theorem rulesHoldDeclarations_of_parse {css : String} {name : Option String} {sheet : Sheet}
    (h : Sheet.parse css name = .ok sheet) :
    sheet.session.2.forest.RulesHoldDeclarations sheet.session.1 :=
  sheet.session_ok.2.rulesHoldDeclarations sheet.session_ok.1 (arePlain_of_parse h)

/-- **A run changes no node of the store or does all that is planned.** Where the links of a store
agree and the rules of a sheet in it hold declarations only, as they do for a sheet that has been
read, a run that fails has failed in its plan and has left every node as it was, with its links; and
every plan that has been made is carried out without fail. -/
theorem apply_all_or_nothing (options : Options) :
    (∀ (s : Session) (root : NodeId), s.forest.WellFormed → s.forest.RulesHoldDeclarations root →
      (∀ e t, Run.apply options root s = .error e t →
        Run.plan options root s = .error e t ∧
          ∀ n < s.forest.size, t.forest.cell n = s.forest.cell n) ∧
      ∀ es t, Run.plan options root s = .ok es t → ∃ u, Run.expandAll es t = .ok () u) ∧
    ∀ css name sheet, Sheet.parse css name = .ok sheet →
      sheet.session.2.forest.WellFormed ∧
        sheet.session.2.forest.RulesHoldDeclarations sheet.session.1 := by
  refine ⟨fun s root hs hrules => ?_, fun css name sheet hparse =>
    ⟨sheet.session_ok.1, rulesHoldDeclarations_of_parse hparse⟩⟩
  have hcarried : ∀ es t, Run.plan options root s = .ok es t →
      ∃ u, Run.expandAll es t = .ok () u := by
    intro es t hplan
    obtain ⟨u, hu, -⟩ := Run.expandAll_ok (Run.ready_of_plan_ok hs hrules hplan)
    exact ⟨u, hu⟩
  refine ⟨fun e t happly => ?_, hcarried⟩
  have hplan := Run.plan_eq_error_of_apply hcarried happly
  have hgrows := ((Run.keeps_plan options root).of_error hplan hs).2
  exact ⟨hplan, hgrows.cell_eq⟩

/-- A sheet that leaves all bounds of a fluid size to the caller. -/
def boundlessSheet : Sheet :=
  ⟨[.rule ".a" none [.declaration "font-size" "fluid" none]], none, none⟩

/-- The options of a caller whose smaller size has no unit. -/
def unitlessOptions : Options :=
  ⟨fun p => { Property.builtin p with minSize := "12" }, defaultRootFontSize⟩

/-- The same sheet is refused and left alone with one caller's options and expanded with
another's. -/
theorem apply_all_or_nothing_boundless :
    (∃ e t, Run.apply unitlessOptions boundlessSheet.session.1 boundlessSheet.session.2 =
        .error e t ∧ ∀ n < boundlessSheet.session.2.forest.size,
          t.forest.cell n = boundlessSheet.session.2.forest.cell n) ∧
      ∃ es t u, Run.plan Options.builtin boundlessSheet.session.1 boundlessSheet.session.2 =
        .ok es t ∧ es ≠ [] ∧ Run.expandAll es t = .ok () u := by
  obtain ⟨hs, hholds⟩ := boundlessSheet.session_ok
  have hrules := hholds.rulesHoldDeclarations hs (by decide)
  constructor
  · obtain ⟨e, t, happly⟩ := exists_error_of_not_givesResult (r := Run.apply unitlessOptions
      boundlessSheet.session.1 boundlessSheet.session.2) (by decide +kernel)
    exact ⟨e, t, happly, (((apply_all_or_nothing unitlessOptions).1 _ _ hs hrules).1 e t happly).2⟩
  · obtain ⟨es, t, hplan, hsome⟩ := exists_ok_of_givesResult (p := fun es => !es.isEmpty)
      (r := Run.plan Options.builtin boundlessSheet.session.1 boundlessSheet.session.2)
      (by decide +kernel)
    obtain ⟨u, hu⟩ := ((apply_all_or_nothing Options.builtin).1 _ _ hs hrules).2 es t hplan
    exact ⟨es, t, u, hplan, by simpa using hsome, hu⟩

end FluidCss
