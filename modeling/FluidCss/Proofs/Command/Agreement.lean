import FluidCss.Proofs.Command.Shown
import FluidCss.Proofs.Sizing.Processing

set_option autoImplicit false

/-! # The commands agree

All three commands read the sheet and plan its expansions. What does not get that far ends in the
same outcome, whatever the command and wherever its output goes (`Request.IsRefused`). A plan that
has been made is carried out without fail and without another warning, so where `check` and
`inspect` succeed, so does `process`, and they tell of the same expansions (`Request.Agree`).

A file that is written holds the sheet as it is, and on the output it is shown without control
sequences. -/

namespace FluidCss

namespace Request

variable {r : Request} {d : Directory} {content : ByteArray} {sheet : Sheet}

/-- The request with another command and another output. -/
def put (r : Request) (verb : Verb) (output : Option String) : Request := { r with verb, output }

theorem perform_of_done {outcome : Outcome} (h : r.answer (d.entry r.path) = .done outcome) :
    r.perform d = (outcome, d) := by
  unfold perform
  rw [h]

theorem perform_of_write {path text log stderr : String} {after : Directory}
    (h : r.answer (d.entry r.path) = .write path text log stderr)
    (hafter : d.write path text.toUTF8 = .ok after) :
    r.perform d = ((Answer.write path text log stderr).finish none, after) := by
  unfold perform
  rw [h]
  dsimp only
  rw [hafter]

theorem perform_of_write_error {path text log stderr : String} {e : WriteError}
    (h : r.answer (d.entry r.path) = .write path text log stderr)
    (hafter : d.write path text.toUTF8 = .error e) :
    r.perform d = ((Answer.write path text log stderr).finish (some e), d) := by
  unfold perform
  rw [h]
  dsimp only
  rw [hafter]

/-! ## Contents that are refused -/

/-- Whether the content of the file is read as a sheet. -/
def Reads (r : Request) (content : ByteArray) (sheet : Sheet) : Prop :=
  ∃ text, String.fromUTF8? content = some text ∧
    Sheet.parse (String.ofList (Text.unifyLineBreaks text.toList)) (some (Path.normal r.path)) =
      .ok sheet

/-- The outcome for a content for which no plan is made. -/
inductive IsRefused (r : Request) (content : ByteArray) : Outcome → Prop
  /-- The content is no text. -/
  | undecodable (h : String.fromUTF8? content = none) :
      IsRefused r content (.crashed "" "" .undecodable)
  /-- The text is no style sheet. -/
  | misread {text : String} {e : CssError} (htext : String.fromUTF8? content = some text)
      (h : Sheet.parse (String.ofList (Text.unifyLineBreaks text.toList))
        (some (Path.normal r.path)) = .error e) :
      IsRefused r content (.rejected "" ("Parse error: " ++ e.message ++ "\n"))
  /-- The fluid sizes of the sheet cannot be planned. -/
  | unplanned {sheet : Sheet} {e : Failure} {t : Session} (hsheet : r.Reads content sheet)
      (h : Run.plan r.options sheet.session.1 sheet.session.2 = .error e t) :
      IsRefused r content (failed (t.report.log r.verbosity) e)

/-- What is refused is refused with the same exit code. -/
theorem IsRefused.exit_eq {outcome : Outcome} (h : r.IsRefused content outcome) :
    outcome.exit = 1 := by
  cases h with
  | undecodable => rfl
  | misread => rfl
  | @unplanned _ e t hsheet h => cases e <;> rfl

theorem answer_put (hentry : d.entry r.path = .file content) (hextra : r.extra = [])
    (verb : Verb) (output : Option String) :
    (r.put verb output).answer (d.entry (r.put verb output).path) =
      (r.put verb output).answerContent content := by
  have hempty : (r.put verb output).extra.isEmpty = true := List.isEmpty_iff.2 hextra
  rw [show (r.put verb output).path = r.path from rfl, hentry]
  simp only [answer]
  rw [if_pos hempty]

theorem answerContent_of_reads (h : r.Reads content sheet) (verb : Verb)
    (output : Option String) :
    (r.put verb output).answerContent content = (r.put verb output).answerSheet sheet := by
  obtain ⟨text, htext, hparse⟩ := h
  unfold answerContent
  rw [htext]
  dsimp only
  rw [show (r.put verb output).path = r.path from rfl, hparse]

theorem answerSheet_of_plan_error {e : Failure} {t : Session}
    (h : Run.plan r.options sheet.session.1 sheet.session.2 = .error e t) :
    r.answerSheet sheet = .done (failed (t.report.log r.verbosity) e) := by
  unfold answerSheet
  cases hverb : r.verb with
  | process => simp only [answerProcess, Sheet.expand_of_plan_error h]
  | check => simp only [answerPlan, h]
  | inspect => simp only [answerPlan, h]

/-- What is refused is refused by every command. -/
theorem perform_of_isRefused {outcome : Outcome} (hentry : d.entry r.path = .file content)
    (hextra : r.extra = []) (h : r.IsRefused content outcome) (verb : Verb)
    (output : Option String) : (r.put verb output).perform d = (outcome, d) := by
  refine perform_of_done ?_
  rw [answer_put hentry hextra]
  cases h with
  | undecodable h =>
    unfold answerContent
    rw [h]
  | misread htext h =>
    unfold answerContent
    rw [htext]
    dsimp only
    rw [show (r.put verb output).path = r.path from rfl, h]
  | unplanned hsheet h =>
    rw [answerContent_of_reads hsheet]
    exact answerSheet_of_plan_error h

end Request

/-! ## Files that are written -/

namespace Directory

variable {d after : Directory} {path : String} {content : ByteArray}

/-- Whether a directory differs from another in the file that a path leads to, which has a given
content. -/
structure IsWritten (d after : Directory) (path : String) (content : ByteArray) : Prop where
  written : ∀ name, d.resolve (Path.normal path) = .ok (.inside name) →
    after.content? name = some content
  kept : ∀ name, d.resolve (Path.normal path) ≠ .ok (.inside name) →
    after.content? name = d.content? name

theorem isWritten_of_write (h : d.write path content = .ok after) :
    d.IsWritten after path content := by
  unfold write at h
  split at h
  · exact absurd h (by simp)
  · next place hplace =>
    split at h
    · exact absurd h (by simp)
    · next name _ =>
      obtain rfl := Except.ok.inj h
      constructor
      case written =>
        intro other hother
        rw [hplace] at hother
        obtain rfl := Location.inside.inj (Except.ok.inj hother)
        simp [content?]
      case kept =>
        intro other hother
        rw [hplace] at hother
        have hne : (name == other) = false := beq_false_of_ne fun heq => hother (by rw [heq])
        have hfind : (fun file : List String × ByteArray =>
            decide (file.1 != name ∧ file.1 == other)) = fun file => file.1 == other := by
          funext file
          by_cases hfile : file.1 = other
          · subst hfile
            simpa [bne] using Ne.symm (beq_eq_false_iff_ne.1 hne)
          · simp [hfile]
        simp only [content?, List.find?_cons, hne, List.find?_filter, hfind]
    · next hinside _ =>
      obtain rfl := Except.ok.inj h
      refine ⟨fun name hname => ?_, fun name _ => rfl⟩
      rw [hplace] at hname
      exact absurd (Except.ok.inj hname) (hinside name)

end Directory

/-! ## Sheets that are planned -/

namespace Request

variable {r : Request} {d : Directory} {content : ByteArray} {sheet : Sheet}

/-- The lines of `inspect` about one expansion as they are shown, the last of which has the value
that is put in the place of the fluid declaration. -/
def shownEntry (f : Forest) (e : Expansion) : List String :=
  (entryLines f e).dropLast.map Text.plain ++ ["    value: " ++ Text.plain e.output.expression]

/-- Whether a line is shown for the declaration that takes the place of a fluid one. -/
def IsShown (e : Expansion) (line : String) : Prop :=
  ∃ depth, line = String.ofList (indentation depth) ++ e.output.prop ++ ": " ++
    Text.plain e.output.expression ++ ";"

/-- What the commands come to for a sheet with a plan: the expansions `es`, with the store and the
report of `t`, where the recursion over the sheet gives `ex`. -/
structure Agree (r : Request) (d : Directory) (es : List Expansion) (t : Session)
    (ex : Expanded) : Prop where
  /-- `process` shows the sheet, with the warnings on the error output. -/
  process : (r.put .process none).perform d =
    (⟨0, Text.plain (Node.toCss ex.nodes),
      (t.report.carriedOut t.forest es).log r.verbosity ++
        textLines (t.report.warnings.map fun w => "  " ++ Text.plain w.message), none⟩, d)
  /-- `check` shows the same warnings, and how many expansions there are. -/
  check : (r.put .check none).perform d =
    (⟨0, textLines (t.report.warnings.map (fun w => Text.plain w.message) ++
        (r.summary es.length t.report.warnings.length).map Text.plain),
      t.report.log r.verbosity, none⟩, d)
  /-- `inspect` shows how many expansions there are, and each of them. -/
  inspect : (r.put .inspect none).perform d =
    (⟨0, textLines (("Fluid declarations: " ++ toString es.length) ::
        es.flatMap (shownEntry t.forest)),
      t.report.log r.verbosity, none⟩, d)
  /-- What `process` shows is lines, -/
  lines : Text.plain (Node.toCss ex.nodes) =
    textLines ((Node.printedSheet ex.nodes).map Text.plain)
  /-- among which the values that `inspect` shows stand in order. -/
  values : ∃ written, List.Forall₂ IsShown es written ∧
    written.Sublist ((Node.printedSheet ex.nodes).map Text.plain)
  /-- With an output, `process` writes the sheet to it and leaves all other files as they are. -/
  written : ∀ {path after}, d.write path (Node.toCss ex.nodes).toUTF8 = .ok after →
    d.IsWritten after path (Node.toCss ex.nodes).toUTF8 ∧
      (r.put .process (some path)).perform d =
        (⟨0, "", (t.report.carriedOut t.forest es).log r.verbosity ++
          textLines ((t.report.warnings.map fun w => "  " ++ Text.plain w.message) ++
            [Text.plain ("Wrote " ++ path)]), none⟩, after)
  /-- Where that is not possible, it leaves all files as they are. -/
  unwritten : ∀ {path e}, d.write path (Node.toCss ex.nodes).toUTF8 = .error e →
    (r.put .process (some path)).perform d =
      (⟨1, "", (t.report.carriedOut t.forest es).log r.verbosity ++
        textLines (t.report.warnings.map fun w => "  " ++ Text.plain w.message),
        some e.uncaught⟩, d)
  /-- What is written is what is shown, if it has no escape character. -/
  shown : '\x1b' ∉ (Node.toCss ex.nodes).toList →
    Text.plain (Node.toCss ex.nodes) = Node.toCss ex.nodes

theorem map_plain_warnings (ws : List Diagnostic) :
    (ws.map fun w => "  " ++ w.message).map Text.plain =
      ws.map fun w => "  " ++ Text.plain w.message := by
  rw [List.map_map]
  refine List.map_congr_left fun w _ => ?_
  exact Text.plain_append_of_not_mem _ (by decide)

theorem plain_count (n : Nat) :
    Text.plain ("Fluid declarations: " ++ toString n) = "Fluid declarations: " ++ toString n := by
  refine Text.plain_eq_self ?_
  rw [String.toList_append, List.mem_append, not_or]
  refine ⟨by decide, fun hmem => ?_⟩
  have hdigit : Char.isDigit '\x1b' = true := by
    refine Nat.isDigit_of_mem_toDigits (b := 10) (n := n) (by omega) (by omega) ?_
    simpa using hmem
  exact absurd hdigit (by decide)

theorem map_plain_entryLines (f : Forest) (e : Expansion) :
    (entryLines f e).map Text.plain = shownEntry f e := by
  have hvalue : Text.plain ("    value: " ++ e.output.expression) =
      "    value: " ++ Text.plain e.output.expression :=
    Text.plain_append_of_not_mem _ (by decide)
  simp only [shownEntry, entryLines, List.dropLast, List.map_cons, List.map_nil, hvalue]
  rfl

theorem exists_shown {es : List Expansion} {ex : Expanded} {s s' : Report} {options : Options}
    (hexpanded : sheet.expanded options s = .ok ex s') (houtputs : ex.outputs = es.map (·.output)) :
    ∃ written, List.Forall₂ IsShown es written ∧
      written.Sublist ((Node.printedSheet ex.nodes).map Text.plain) := by
  obtain ⟨written, hall, hsub⟩ := Sheet.areAmong_of_expanded hexpanded
  refine ⟨written.map Text.plain, ?_, hsub.map Text.plain⟩
  rw [houtputs, List.forall₂_map_left_iff] at hall
  rw [List.forall₂_map_right_iff]
  exact hall.imp fun e line hline => hline.plain_eq

theorem success_textLines (log : String) (lines : List String) :
    Outcome.success log (textLines lines) "" =
      ⟨0, textLines (lines.map Text.plain), log, none⟩ := by
  rw [Outcome.success, plain_textLines, Text.plain_eq_self (by decide), String.append_empty]

theorem finish_none (path text log : String) (lines : List String) :
    (Answer.write path text log (textLines lines)).finish none =
      ⟨0, "", log ++ textLines (lines.map Text.plain ++ [Text.plain ("Wrote " ++ path)]), none⟩ := by
  have hlines : textLines lines ++ "Wrote " ++ path ++ "\n" =
      textLines (lines ++ ["Wrote " ++ path]) := by
    rw [textLines_append, textLines_cons, textLines_nil, String.append_empty]
    simp only [String.append_assoc]
  dsimp only [Answer.finish]
  rw [hlines, Outcome.success, plain_textLines, List.map_append, Text.plain_eq_self (by decide)]
  rfl

theorem finish_some (path text log : String) (lines : List String) (e : WriteError) :
    (Answer.write path text log (textLines lines)).finish (some e) =
      ⟨1, "", log ++ textLines (lines.map Text.plain), some e.uncaught⟩ := by
  dsimp only [Answer.finish]
  rw [Outcome.crashed, plain_textLines]

theorem answerSheet_check {es : List Expansion} {t : Session} (hverb : r.verb = .check)
    (h : Run.plan r.options sheet.session.1 sheet.session.2 = .ok es t) :
    r.answerSheet sheet =
      .done (.success (t.report.log r.verbosity) (textLines (r.checkLines es t.report)) "") := by
  simp only [answerSheet, hverb, answerPlan, h]

theorem answerSheet_inspect {es : List Expansion} {t : Session} (hverb : r.verb = .inspect)
    (h : Run.plan r.options sheet.session.1 sheet.session.2 = .ok es t) :
    r.answerSheet sheet =
      .done (.success (t.report.log r.verbosity) (textLines (inspectLines t.forest es)) "") := by
  simp only [answerSheet, hverb, answerPlan, h]

theorem answerSheet_process {css : String} {u : Session} (hverb : r.verb = .process)
    (houtput : r.output = none) (h : sheet.expand [r.options] = .ok css u) :
    r.answerSheet sheet = .done (.success (u.report.log r.verbosity) css
      (textLines (u.report.warnings.map fun w => "  " ++ w.message))) := by
  simp only [answerSheet, hverb, answerProcess, h, houtput]

theorem answerSheet_process_output {css path : String} {u : Session} (hverb : r.verb = .process)
    (houtput : r.output = some path) (h : sheet.expand [r.options] = .ok css u) :
    r.answerSheet sheet = .write path css (u.report.log r.verbosity)
      (textLines (u.report.warnings.map fun w => "  " ++ w.message)) := by
  simp only [answerSheet, hverb, answerProcess, h, houtput]

/-- **The commands agree on a sheet with a plan.** -/
theorem agree_of_plan_ok {es : List Expansion} {t : Session}
    (hentry : d.entry r.path = .file content) (hextra : r.extra = [])
    (hsheet : r.Reads content sheet)
    (hplan : Run.plan r.options sheet.session.1 sheet.session.2 = .ok es t) :
    ∃ ex, sheet.expanded r.options .empty = .ok ex t.report ∧
      ex.outputs = es.map (·.output) ∧ r.Agree d es t ex := by
  obtain ⟨text, -, hparse⟩ := id hsheet
  obtain ⟨ex, u, hexpanded, houtputs, hexpand, hreport⟩ := Sheet.expand_of_plan_ok hparse hplan
  have hanswer : ∀ verb output, (r.put verb output).answer (d.entry (r.put verb output).path) =
      (r.put verb output).answerSheet sheet := by
    intro verb output
    rw [answer_put hentry hextra, answerContent_of_reads hsheet]
  -- carrying out the plan adds to the log and gives no further warning
  have hlog : u.report.log = (t.report.carriedOut t.forest es).log := by rw [hreport]
  have hwarnings : u.report.warnings = t.report.warnings := by
    rw [hreport]
    rfl
  have hwrite : ∀ path, (r.put .process (some path)).answer
      (d.entry (r.put .process (some path)).path) =
        .write path (Node.toCss ex.nodes) ((t.report.carriedOut t.forest es).log r.verbosity)
          (textLines (t.report.warnings.map fun w => "  " ++ w.message)) := by
    intro path
    rw [hanswer, answerSheet_process_output (r := r.put .process (some path)) rfl rfl hexpand,
      hlog, hwarnings]
    rfl
  refine ⟨ex, hexpanded, houtputs, ?_⟩
  constructor
  case process =>
    refine perform_of_done ?_
    rw [hanswer, answerSheet_process (r := r.put .process none) rfl rfl hexpand, hlog, hwarnings,
      Outcome.success, plain_textLines, map_plain_warnings]
    rfl
  case check =>
    refine perform_of_done ?_
    rw [hanswer, answerSheet_check (r := r.put .check none) rfl hplan, success_textLines,
      checkLines, List.map_append, List.map_map]
    rfl
  case inspect =>
    refine perform_of_done ?_
    rw [hanswer, answerSheet_inspect (r := r.put .inspect none) rfl hplan, success_textLines,
      inspectLines, List.map_cons, plain_count, List.map_flatMap]
    simp only [map_plain_entryLines]
    rfl
  case lines => rw [Node.toCss_eq_textLines, plain_textLines]
  case values => exact exists_shown hexpanded houtputs
  case written =>
    intro path after hresult
    refine ⟨Directory.isWritten_of_write hresult, ?_⟩
    rw [perform_of_write (hwrite path) hresult, finish_none, map_plain_warnings]
  case unwritten =>
    intro path e hresult
    rw [perform_of_write_error (hwrite path) hresult, finish_some, map_plain_warnings]
  case shown => exact Text.plain_eq_self

/-- **The commands agree on every file.** Where no plan can be made, all of them come to the same
outcome and no file is changed; otherwise they tell of the same expansions. -/
theorem commands_agree (hentry : d.entry r.path = .file content) (hextra : r.extra = []) :
    (∃ outcome, r.IsRefused content outcome ∧
      ∀ verb output, (r.put verb output).perform d = (outcome, d)) ∨
    ∃ sheet es t ex, r.Reads content sheet ∧
      Run.plan r.options sheet.session.1 sheet.session.2 = .ok es t ∧
      sheet.expanded r.options .empty = .ok ex t.report ∧ ex.outputs = es.map (·.output) ∧
      r.Agree d es t ex := by
  have hrefused : ∀ {outcome}, r.IsRefused content outcome →
      ∃ outcome, r.IsRefused content outcome ∧
        ∀ verb output, (r.put verb output).perform d = (outcome, d) := fun h =>
    ⟨_, h, perform_of_isRefused hentry hextra h⟩
  cases htext : String.fromUTF8? content with
  | none => exact .inl (hrefused (.undecodable htext))
  | some text =>
    cases hparse : Sheet.parse (String.ofList (Text.unifyLineBreaks text.toList))
      (some (Path.normal r.path)) with
    | error e => exact .inl (hrefused (.misread htext hparse))
    | ok sheet =>
      have hsheet : r.Reads content sheet := ⟨text, htext, hparse⟩
      cases hplan : Run.plan r.options sheet.session.1 sheet.session.2 with
      | error e t => exact .inl (hrefused (.unplanned hsheet hplan))
      | ok es t =>
        obtain ⟨ex, hexpanded, houtputs, hagree⟩ := agree_of_plan_ok hentry hextra hsheet hplan
        exact .inr ⟨sheet, es, t, ex, hsheet, hplan, hexpanded, houtputs, hagree⟩

/-- A file with a fluid size in two units. -/
def mixedFile : Directory := ⟨[(["a.css"], ".a\x7bfont-size:fluid 1px 2em\x7d".toUTF8)]⟩

/-- The request to check it. -/
def mixedCheck : Request := ⟨.check, "a.css", [], none, none, 0⟩

/-- The file is checked, with a warning, and all commands tell of the same expansion. -/
theorem commands_agree_mixedFile :
    ∃ content, mixedFile.entry mixedCheck.path = .file content ∧ mixedCheck.extra = [] ∧
      (mixedCheck.perform mixedFile).1.stdout =
        "WARNING [1:1] [.a]: min/max unit types must match (fluidtype)\n\n" ++
          "Summary: 1 fluid declaration(s), 1 warning(s)\n" ∧
      ∃ sheet es t ex, mixedCheck.Reads content sheet ∧
        Run.plan mixedCheck.options sheet.session.1 sheet.session.2 = .ok es t ∧
        mixedCheck.Agree mixedFile es t ex := by
  have hentry : mixedFile.entry mixedCheck.path =
      .file ".a\x7bfont-size:fluid 1px 2em\x7d".toUTF8 := rfl
  have hexit : (mixedCheck.perform mixedFile).1.exit = 0 := by decide +kernel
  refine ⟨_, hentry, rfl, by decide +kernel, ?_⟩
  rcases commands_agree hentry rfl with
    ⟨outcome, hrefused, hall⟩ | ⟨sheet, es, t, ex, hsheet, hplan, -, -, hagree⟩
  · have hsame : mixedCheck.perform mixedFile = (outcome, mixedFile) := hall .check none
    rw [hsame, hrefused.exit_eq] at hexit
    exact absurd hexit (by decide)
  · exact ⟨sheet, es, t, ex, hsheet, hplan, hagree⟩

/-- A file with a control sequence in a value. -/
def coloredFile : Directory := ⟨[(["a.css"], "a\x7bb:\x1b[0mx\x7d".toUTF8)]⟩

/-- The sequence is written to a file, and it is not shown. -/
theorem runIn_coloredFile :
    (runIn coloredFile ["process", "a.css"]).1 = ⟨0, "a \x7b\n  b: x;\n\x7d\n", "", none⟩ ∧
      (runIn coloredFile ["process", "a.css", "-o", "b.css"]).1 =
        ⟨0, "", "Wrote b.css\n", none⟩ ∧
      (runIn coloredFile ["process", "a.css", "-o", "b.css"]).2.content? ["b.css"] =
        some "a \x7b\n  b: \x1b[0mx;\n\x7d\n".toUTF8 ∧
      (runIn coloredFile ["process", "a.css", "-o", "b.css"]).2.content? ["b.css"] ≠
        some (runIn coloredFile ["process", "a.css"]).1.stdout.toUTF8 := by
  decide +kernel

end Request

end FluidCss
