import CurvePlot.Proofs.Command.FileChanges
import CurvePlot.Proofs.Command.PlotSteps
import CurvePlot.Proofs.Plot.BatchReport

/-!
# Failed runs leave nothing

A plot is a row of checks with the output behind them. `Request.Fails` lists the checks, each with
the error that it ends the run with; loading and collecting keep the desk, and a report that cannot
be put out leaves what was skipped beside it and nothing else. So a run that fails has printed
nothing and changed no file but that of the standard settings. A picture may also overflow
(`Request.Overflows`), which is none of the checks and ends the run with another exit code. A refused
formula is no failure: when the others make a report, a table or a JSON text of it is the whole
output, with the cache or without (`Command.fails_or_delivers`).
-/

namespace CurvePlot

/-! ### Checks -/

namespace Request

variable (stdin : String → Except FileFault String) (r : Request) (loaded : Settings) (desk : Desk)

/-- Whether a request goes by these settings and formulas: its options over the loaded settings, and
at least one formula. -/
structure GoesBy (s : Settings) (formulas : List String) : Prop where
  /-- The options are put over the settings. -/
  effective : loaded.withRequest r = .ok s
  /-- The formulas are found. -/
  found : r.formulasAt stdin desk = .ok formulas
  /-- There are some. -/
  nonempty : formulas ≠ []

/-- Whether a picture is wanted, and there is a file for one of pixels. -/
def Draws : Prop :=
  r.outputFormat = .svg ∨ r.outputFormat = .png ∧ r.output ≠ none

/-- Whether the wanted picture of a report overflows: a place in its grid or frame, or the size of
its pixels. -/
inductive PictureOverflows (s : Settings) (report : Report) : Prop
  /-- A place is no word. -/
  | place (hdraws : r.Draws)
    (hpicture : Picture.ofGroups s.drawing ⟨s.grid, true⟩ report.groups = .error .overflow)
  /-- The pixels have no size. -/
  | size {p : Picture} (hformat : r.outputFormat = .png) (houtput : r.output ≠ none)
    (hpicture : Picture.ofGroups s.drawing ⟨s.grid, true⟩ report.groups = .ok p)
    (hsize : 2 ^ 63 ≤ p.byteCount)

/-- Whether a run of a request is broken off by an overflow in its picture. -/
def Overflows : Prop :=
  ∃ s formulas report, r.GoesBy stdin loaded desk s formulas ∧
    Report.run s.reading s.drawing formulas = .ok report ∧ r.PictureOverflows s report

/-- Whether a run of a request ends with an error, by the first of its checks that fails. -/
inductive Fails : CommandError → Prop
  /-- The range has not three parts, or none of them has a value. -/
  | range {text : String} (hrange : r.range = some text)
    (hvalues : (readValues loaded.reading text.toList).length ≠ 3 ∨
      ∀ value ∈ readValues loaded.reading text.toList, value = none) :
    Fails (.badRange text)
  /-- The standard input cannot be read. -/
  | input {s : Settings} {fault : FileFault} (hsettings : loaded.withRequest r = .ok s)
    (hfile : r.formulaFile = some "-") (hinput : stdin desk.input = .error fault) :
    Fails (.unreadableInput fault)
  /-- The file with the formulas cannot be read. -/
  | file {s : Settings} {path : String} {fault : FileFault}
    (hsettings : loaded.withRequest r = .ok s) (hfile : r.formulaFile = some path)
    (hpath : path ≠ "-") (hread : desk.tree.read path = .error fault) :
    Fails (.unreadable path fault)
  /-- There is no formula. -/
  | noFormulas {s : Settings} (hsettings : loaded.withRequest r = .ok s)
    (hformulas : r.formulasAt stdin desk = .ok []) :
    Fails .noFormulas
  /-- The series cannot be mapped. -/
  | unmappable {s : Settings} {formulas : List String} {e : MappingError}
    (h : r.GoesBy stdin loaded desk s formulas)
    (hreport : Report.run s.reading s.drawing formulas = .error e) :
    Fails (.unmappable e)
  /-- A picture of pixels has no file to go to. -/
  | noOutput {s : Settings} {formulas : List String} {report : Report}
    (h : r.GoesBy stdin loaded desk s formulas)
    (hreport : Report.run s.reading s.drawing formulas = .ok report)
    (hformat : r.outputFormat = .png) (houtput : r.output = none) :
    Fails .noOutput
  /-- The series cannot be drawn. -/
  | undrawable {s : Settings} {formulas : List String} {report : Report} {e : MappingError}
    (h : r.GoesBy stdin loaded desk s formulas)
    (hreport : Report.run s.reading s.drawing formulas = .ok report) (hdraws : r.Draws)
    (hpicture : Picture.ofGroups s.drawing ⟨s.grid, true⟩ report.groups = .error (.unusable e)) :
    Fails (.unmappable e)
  /-- The output cannot be written. -/
  | unwritable {s : Settings} {formulas : List String} {report : Report} {content : FileContent}
    {path : String} {fault : FileFault}
    (h : r.GoesBy stdin loaded desk s formulas)
    (hreport : Report.run s.reading s.drawing formulas = .ok report)
    (hcontent : r.content s report = .ok content) (houtput : r.output = some path)
    (hwrite : desk.tree.write path content = .error fault) :
    Fails (.unwritable path fault)

end Request

/-! ### Failing checks -/

/-- A range is refused that has not three parts, or none with a value. -/
theorem Settings.withRange_eq_error_iff {s : Settings} {text : String} {e : CommandError} :
    s.withRange text = .error e ↔ e = .badRange text ∧
      ((readValues s.reading text.toList).length ≠ 3 ∨
        ∀ value ∈ readValues s.reading text.toList, value = none) := by
  have hbad : ((readValues s.reading text.toList).length != 3 ||
      (readValues s.reading text.toList).all Option.isNone) = true ↔
        (readValues s.reading text.toList).length ≠ 3 ∨
          ∀ value ∈ readValues s.reading text.toList, value = none := by
    simp only [Bool.or_eq_true, bne_iff_ne, List.all_eq_true, Option.isNone_iff_eq_none]
  rw [← hbad]
  unfold withRange
  dsimp only
  split
  · next h =>
    constructor
    · intro herror
      cases herror
      exact ⟨rfl, h⟩
    · intro herror
      rw [herror.1]
  · next h =>
    refine ⟨fun hok => ?_, fun hcontra => absurd hcontra.2 h⟩
    cases hok

/-- Options are refused for the range alone. -/
theorem Settings.withRequest_eq_error_iff {s : Settings} {r : Request} {e : CommandError} :
    s.withRequest r = .error e ↔ ∃ text, r.range = some text ∧ s.withRange text = .error e := by
  unfold withRequest
  rw [map_eq_error_iff]
  cases r.range <;> simp

/-- A picture is held unless its pixels have no size. -/
theorem Picture.bind_held_eq_error_iff {x : Except PictureFault Picture} {fault : PictureFault} :
    x.bind held = .error fault ↔ x = .error fault ∨
      fault = .overflow ∧ ∃ p, x = .ok p ∧ 2 ^ 63 ≤ p.byteCount := by
  cases x with
  | error e => simp [Except.bind]
  | ok p =>
    change held p = _ ↔ _
    unfold held
    split
    · next hlt =>
      refine iff_of_false nofun ?_
      rintro (herror | ⟨-, q, hq, hge⟩)
      · cases herror
      · cases hq
        exact absurd hlt (not_lt.mpr hge)
    · next hge =>
      constructor
      · intro herror
        cases herror
        exact Or.inr ⟨rfl, p, rfl, not_lt.mp hge⟩
      · rintro (herror | ⟨rfl, -⟩)
        · cases herror
        · rfl

/-- The error of a picture is that of the canvas or the overflow. -/
theorem CommandError.exists_ofPicture_iff {e : CommandError} (P : PictureFault → Prop) :
    (∃ fault, e = ofPicture fault ∧ P fault) ↔
      (∃ error, e = unmappable error ∧ P (.unusable error)) ∨ e = overflow ∧ P .overflow := by
  constructor
  · rintro ⟨fault | _, rfl, hfault⟩
    · exact Or.inl ⟨fault, rfl, hfault⟩
    · exact Or.inr ⟨rfl, hfault⟩
  · rintro (⟨error, rfl, herror⟩ | ⟨rfl, hoverflow⟩)
    · exact ⟨_, rfl, herror⟩
    · exact ⟨_, rfl, hoverflow⟩

/-- A picture overflows when it is drawn, or in pixels when it is held. -/
theorem Request.pictureOverflows_iff {r : Request} {s : Settings} {report : Report} :
    r.PictureOverflows s report ↔
      r.Draws ∧ Picture.ofGroups s.drawing ⟨s.grid, true⟩ report.groups = .error .overflow ∨
        r.outputFormat = .png ∧ r.output ≠ none ∧
          ∃ p, Picture.ofGroups s.drawing ⟨s.grid, true⟩ report.groups = .ok p ∧
            2 ^ 63 ≤ p.byteCount := by
  constructor
  · rintro (⟨hdraws, hpicture⟩ | ⟨hformat, houtput, hpicture, hsize⟩)
    · exact Or.inl ⟨hdraws, hpicture⟩
    · exact Or.inr ⟨hformat, houtput, _, hpicture, hsize⟩
  · rintro (⟨hdraws, hpicture⟩ | ⟨hformat, houtput, p, hpicture, hsize⟩)
    · exact .place hdraws hpicture
    · exact .size hformat houtput hpicture hsize

/-- A report is not put out for want of a file for its picture, or of the picture. -/
theorem Request.content_eq_error_iff {r : Request} {s : Settings} {report : Report}
    {e : CommandError} :
    r.content s report = .error e ↔
      (e = .noOutput ∧ r.outputFormat = .png ∧ r.output = none) ∨
      (∃ error, e = .unmappable error ∧ r.Draws ∧
        Picture.ofGroups s.drawing ⟨s.grid, true⟩ report.groups = .error (.unusable error)) ∨
      e = .overflow ∧ r.PictureOverflows s report := by
  rw [pictureOverflows_iff]
  unfold content Draws
  cases r.outputFormat with
  | png =>
    cases r.output with
    | none => simp [eq_comm]
    | some path =>
      simp only [Option.isNone_some, Bool.false_eq_true, if_false, mapError_eq_error_iff,
        map_eq_error_iff, CommandError.exists_ofPicture_iff, Picture.bind_held_eq_error_iff]
      simp
  | svg =>
    simp only [mapError_eq_error_iff, map_eq_error_iff, CommandError.exists_ofPicture_iff]
    simp
  | csv => simp
  | json => simp

/-- A picture of pixels is made for a file only. -/
theorem Request.content_ne_picture {r : Request} {s : Settings} {report : Report}
    (houtput : r.output = none) (p : Picture) : r.content s report ≠ .ok (.picture p) := by
  unfold content
  rw [houtput]
  cases r.outputFormat with
  | png => exact nofun
  | svg => cases Picture.ofGroups s.drawing ⟨s.grid, true⟩ report.groups <;> exact nofun
  | csv => exact nofun
  | json => exact nofun

/-- The error of a failing check has the exit code one. -/
theorem Request.Fails.code_eq {stdin : String → Except FileFault String} {r : Request}
    {loaded : Settings} {desk : Desk} {e : CommandError} (h : r.Fails stdin loaded desk e) :
    e.code = 1 := by
  cases h <;> rfl

namespace Report

/-- Refused formulas make no difference to the groups of a report, nor to whether there is one. -/
theorem run_filter_read (rules : ReadingRules) (o : DrawingOptions) (formulas : List String) :
    (run rules o (formulas.filter fun formula => (rules.read formula).isOk)).map groups =
      (run rules o formulas).map groups := by
  have hplots : (rules.readAll (formulas.filter fun formula => (rules.read formula).isOk)).filterMap
      (fun r => r.outcome.toOption) =
        (rules.readAll formulas).filterMap fun r => r.outcome.toOption := by
    unfold ReadingRules.readAll
    rw [List.filterMap_map, List.filterMap_map, List.filterMap_filter]
    refine List.filterMap_congr fun formula _ => ?_
    dsimp only [Function.comp_apply]
    cases rules.read formula <;> rfl
  rw [run_eq_ofPlots, run_eq_ofPlots, hplots]
  cases FamilyGroup.ofPlots o
    ((rules.readAll formulas).filterMap fun r => r.outcome.toOption) <;> rfl

end Report

namespace Command

variable {stdin : String → Except FileFault String} {r : Request} {desk later last : Desk}
  {loaded : Settings} {e : CommandError}

/-- Formulas are not found for want of the standard input or of the file. -/
theorem formulasAt_eq_error_iff :
    r.formulasAt stdin desk = .error e ↔
      (r.formulaFile = some "-" ∧ ∃ fault, e = .unreadableInput fault ∧
        stdin desk.input = .error fault) ∨
      ∃ path, r.formulaFile = some path ∧ path ≠ "-" ∧ ∃ fault, e = .unreadable path fault ∧
        desk.tree.read path = .error fault := by
  rw [Request.formulasAt, formulas_eq]
  cases r.formulaFile with
  | none => simp
  | some path =>
    simp only [map_eq_error_iff, Option.some.injEq, exists_eq_left', beq_iff_eq]
    by_cases hpath : path = "-"
    · rw [if_pos hpath, mapError_eq_error_iff]
      simp [hpath]
    · rw [if_neg hpath, mapError_eq_error_iff]
      simp [hpath]

/-- A report that is not presented is none, or it cannot be put out. -/
theorem fails_of_present {s : Settings} {formulas : List String}
    (hgoes : r.GoesBy stdin loaded desk s formulas)
    (hpresent : present (m := StateM Desk) r s formulas desk = (.error e, last)) :
    (r.Fails stdin loaded desk e ∨ e = .overflow ∧ r.Overflows stdin loaded desk) ∧
      last.tree = desk.tree ∧ last.printed = desk.printed := by
  rw [present_eq] at hpresent
  cases hreport : Report.run s.reading s.drawing formulas with
  | error error =>
    rw [hreport] at hpresent
    cases hpresent
    exact ⟨Or.inl (.unmappable hgoes hreport), rfl, rfl⟩
  | ok report =>
    rw [hreport] at hpresent
    dsimp only at hpresent
    cases hcontent : r.content s report with
    | error error =>
      rw [hcontent] at hpresent
      cases hpresent
      refine ⟨?_, rfl, rfl⟩
      rcases Request.content_eq_error_iff.mp hcontent with ⟨rfl, hformat, houtput⟩ |
        ⟨error, rfl, hdraws, hpicture⟩ | ⟨rfl, hoverflows⟩
      · exact Or.inl (.noOutput hgoes hreport hformat houtput)
      · exact Or.inl (.undrawable hgoes hreport hdraws hpicture)
      · exact Or.inr ⟨rfl, s, formulas, report, hgoes, hreport, hoverflows⟩
    | ok content =>
      rw [hcontent] at hpresent
      dsimp only at hpresent
      rw [deliver_eq] at hpresent
      split at hpresent
      · next path houtput =>
        split at hpresent
        · next fault hwrite =>
          cases hpresent
          exact ⟨Or.inl (.unwritable hgoes hreport hcontent houtput hwrite), rfl, rfl⟩
        · cases hpresent
      · cases hpresent
      · next p houtput => exact absurd hcontent (Request.content_ne_picture houtput p)

/-- A plot with an error has failed one of its checks, or its picture overflows, and it leaves the
files and what was printed as they were when the settings were loaded. -/
theorem fails_of_plot (hloaded : settings (m := StateM Desk) r desk = (loaded, later))
    (hplot : @plot (StateM Desk) _ (Desk.hostReading stdin) r desk = (.error e, last)) :
    (r.Fails stdin loaded later e ∨ e = .overflow ∧ r.Overflows stdin loaded later) ∧
      last.tree = later.tree ∧ last.printed = later.printed := by
  rw [plot_eq stdin r desk hloaded] at hplot
  cases hsettings : loaded.withRequest r with
  | error error =>
    obtain ⟨text, hrange, herror⟩ := Settings.withRequest_eq_error_iff.mp hsettings
    obtain ⟨rfl, hvalues⟩ := Settings.withRange_eq_error_iff.mp herror
    rw [hsettings] at hplot
    cases hplot
    exact ⟨Or.inl (.range hrange hvalues), rfl, rfl⟩
  | ok s =>
    rw [hsettings] at hplot
    dsimp only at hplot
    split at hplot
    · next error herror =>
      cases hplot
      refine ⟨Or.inl ?_, rfl, rfl⟩
      rcases formulasAt_eq_error_iff.mp herror with ⟨hfile, fault, rfl, hinput⟩ |
        ⟨path, hfile, hpath, fault, rfl, hread⟩
      · exact .input hsettings hfile hinput
      · exact .file hsettings hfile hpath hread
    · next hformulas =>
      cases hplot
      exact ⟨Or.inl (.noFormulas hsettings hformulas), rfl, rfl⟩
    · next formulas hnonempty hformulas =>
      exact fails_of_present ⟨hsettings, hformulas, hnonempty⟩ hplot

/-- A request that goes by settings and formulas presents the report on them. -/
theorem plot_of_goesBy (hloaded : settings (m := StateM Desk) r desk = (loaded, later))
    {s : Settings} {formulas : List String} (hgoes : r.GoesBy stdin loaded later s formulas) :
    @plot (StateM Desk) _ (Desk.hostReading stdin) r desk =
      present (m := StateM Desk) r s formulas later := by
  rw [plot_eq stdin r desk hloaded, hgoes.effective]
  dsimp only
  rw [hgoes.found]
  cases formulas with
  | nil => exact absurd rfl hgoes.nonempty
  | cons formula rest => rfl

/-- A report that can be put out is, behind the lines about what it skips. -/
theorem present_of_content {s : Settings} {formulas : List String} {report : Report}
    {content : FileContent} (hreport : Report.run s.reading s.drawing formulas = .ok report)
    (hcontent : r.content s report = .ok content) :
    present (m := StateM Desk) r s formulas desk =
      deliver (m := StateM Desk) r.output content (desk.tell report.skipped) := by
  rw [present_eq, hreport]
  dsimp only
  rw [hcontent]

/-- Wanted as a table or a JSON text, the groups of a report are put out at a desk where the lines
about what it skips are all that was said and nothing was printed. -/
theorem plot_of_text {files : FileTree} {input text : String} {s : Settings}
    {formulas : List String} {report : Report}
    (hloaded : settings (m := StateM Desk) r ⟨files, input, [], []⟩ = (loaded, later))
    (hgoes : r.GoesBy stdin loaded later s formulas)
    (hreport : Report.run s.reading s.drawing formulas = .ok report)
    (htext : r.outputFormat = .csv ∧ text = Csv.table report.groups ∨
      r.outputFormat = .json ∧ text = FamilyGroup.jsonText report.groups) :
    @plot (StateM Desk) _ (Desk.hostReading stdin) r ⟨files, input, [], []⟩ =
      deliver (m := StateM Desk) r.output (.text text)
        ⟨later.tree, input, [], report.skipped.reverse⟩ := by
  have hcontent : r.content s report = .ok (.text text) := by
    unfold Request.content
    rcases htext with ⟨hformat, rfl⟩ | ⟨hformat, rfl⟩ <;> rw [hformat]
  have hkept := keeps_settings r ⟨files, input, [], []⟩
  rw [hloaded] at hkept
  rw [plot_of_goesBy hloaded hgoes, present_of_content hreport hcontent, Desk.tell, hkept.input,
    hkept.printed, hkept.said, List.append_nil]

/-- A report that cannot be put out ends a plot with the error. -/
theorem plot_of_content_error (hloaded : settings (m := StateM Desk) r desk = (loaded, later))
    {s : Settings} {formulas : List String} {report : Report}
    (hgoes : r.GoesBy stdin loaded later s formulas)
    (hreport : Report.run s.reading s.drawing formulas = .ok report)
    (hcontent : r.content s report = .error e) :
    (@plot (StateM Desk) _ (Desk.hostReading stdin) r desk).1 = .error e := by
  rw [plot_of_goesBy hloaded hgoes, present_eq, hreport]
  dsimp only
  rw [hcontent]

/-- A failing check ends a plot with its error. -/
theorem plot_of_fails (hloaded : settings (m := StateM Desk) r desk = (loaded, later))
    (hfails : r.Fails stdin loaded later e) :
    (@plot (StateM Desk) _ (Desk.hostReading stdin) r desk).1 = .error e := by
  cases hfails with
  | range hrange hvalues =>
    rw [plot_eq stdin r desk hloaded, Settings.withRequest_eq_error_iff.mpr
      ⟨_, hrange, Settings.withRange_eq_error_iff.mpr ⟨rfl, hvalues⟩⟩]
  | input hsettings hfile hinput =>
    rw [plot_eq stdin r desk hloaded, hsettings]
    dsimp only
    rw [formulasAt_eq_error_iff.mpr (Or.inl ⟨hfile, _, rfl, hinput⟩)]
  | file hsettings hfile hpath hread =>
    rw [plot_eq stdin r desk hloaded, hsettings]
    dsimp only
    rw [formulasAt_eq_error_iff.mpr (Or.inr ⟨_, hfile, hpath, _, rfl, hread⟩)]
  | noFormulas hsettings hformulas =>
    rw [plot_eq stdin r desk hloaded, hsettings]
    dsimp only
    rw [hformulas]
  | unmappable hgoes hreport => rw [plot_of_goesBy hloaded hgoes, present_eq, hreport]
  | noOutput hgoes hreport hformat houtput =>
    exact plot_of_content_error hloaded hgoes hreport
      (Request.content_eq_error_iff.mpr (Or.inl ⟨rfl, hformat, houtput⟩))
  | undrawable hgoes hreport hdraws hpicture =>
    exact plot_of_content_error hloaded hgoes hreport
      (Request.content_eq_error_iff.mpr (Or.inr (Or.inl ⟨_, rfl, hdraws, hpicture⟩)))
  | unwritable hgoes hreport hcontent houtput hwrite =>
    rw [plot_of_goesBy hloaded hgoes, present_of_content hreport hcontent, deliver_eq, houtput]
    dsimp only [Desk.tell]
    rw [hwrite]

/-- A picture that overflows ends a plot with this error. -/
theorem plot_of_overflows (hloaded : settings (m := StateM Desk) r desk = (loaded, later))
    (hoverflows : r.Overflows stdin loaded later) :
    (@plot (StateM Desk) _ (Desk.hostReading stdin) r desk).1 = .error .overflow := by
  obtain ⟨s, formulas, report, hgoes, hreport, hpicture⟩ := hoverflows
  exact plot_of_content_error hloaded hgoes hreport
    (Request.content_eq_error_iff.mpr (Or.inr (Or.inr ⟨rfl, hpicture⟩)))

/-- Without a failing check and an overflow, a plot succeeds. -/
theorem exists_ok_of_plot (hloaded : settings (m := StateM Desk) r desk = (loaded, later))
    (hnone : ∀ e, ¬r.Fails stdin loaded later e) (hfits : ¬r.Overflows stdin loaded later) :
    (@plot (StateM Desk) _ (Desk.hostReading stdin) r desk).1 = .ok () := by
  cases hplot : @plot (StateM Desk) _ (Desk.hostReading stdin) r desk with
  | mk result last =>
    cases result with
    | ok _ => rfl
    | error e =>
      rcases (fails_of_plot hloaded hplot).1 with hfails | ⟨-, hoverflows⟩
      · exact absurd hfails (hnone e)
      · exact absurd hoverflows hfits

/-- Only pictures overflow. -/
theorem not_overflows_of_text (hformat : r.outputFormat = .csv ∨ r.outputFormat = .json) :
    ¬r.Overflows stdin loaded desk := by
  rintro ⟨s, formulas, report, -, -, hpicture⟩
  rcases hpicture with ⟨hsvg | ⟨hpng, -⟩, -⟩ | ⟨hpng, -, -, -⟩ <;> rcases hformat with h | h <;>
    simp_all

/-! ### Runs -/

/-- Runs a command on files and on a standard input that need not be a text. -/
def outcomeReading (stdin : String → Except FileFault String) (files : FileTree) (input : String)
    (arguments : List String) : Outcome :=
  let (code, desk) := (@run (StateM Desk) _ (Desk.hostReading stdin) arguments).run
    ⟨files, input, [], []⟩
  ⟨code, desk⟩

/-- With a text as standard input it is the outcome of the command. -/
theorem outcomeReading_ok : outcomeReading .ok = outcome := rfl

/-- A plot that succeeds ends the run with zero, and one that fails with the code of the error, which
is told. -/
theorem outcomeReading_eq (stdin : String → Except FileFault String) (files : FileTree)
    (input : String) {arguments : List String}
    (harguments : Invocation.ofArguments arguments = .ok (.plot r)) :
    outcomeReading stdin files input arguments =
      match @plot (StateM Desk) _ (Desk.hostReading stdin) r ⟨files, input, [], []⟩ with
      | (.ok _, last) => ⟨0, last⟩
      | (.error e, last) => ⟨e.code, last.tell e.lines⟩ := by
  unfold outcomeReading run StateT.run
  rw [harguments]
  dsimp only
  rw [Desk.bind_apply]
  cases hplot : @plot (StateM Desk) _ (Desk.hostReading stdin) r ⟨files, input, [], []⟩ with
  | mk result last =>
    cases result with
    | ok _ => rfl
    | error e =>
      have hsay : e.lines.forM (@Host.say _ (Desk.hostReading stdin)) last =
          ((), last.tell e.lines) := Desk.forM_say last e.lines
      dsimp only
      rw [Desk.bind_apply, hsay]
      rfl

/-- A plot that fails ends the run with the code of its error, and its lines are the last ones. -/
theorem ended_of_plot {files : FileTree} {input : String} {arguments : List String}
    (harguments : Invocation.ofArguments arguments = .ok (.plot r))
    (herror : (@plot (StateM Desk) _ (Desk.hostReading stdin) r ⟨files, input, [], []⟩).1 =
      .error e) :
    (outcomeReading stdin files input arguments).code = e.code ∧
      e.lines <:+ (outcomeReading stdin files input arguments).desk.said.reverse := by
  rw [outcomeReading_eq stdin files input harguments]
  cases hplot : @plot (StateM Desk) _ (Desk.hostReading stdin) r ⟨files, input, [], []⟩ with
  | mk result last =>
    rw [hplot] at herror
    cases herror
    refine ⟨rfl, ?_⟩
    rw [Desk.said_tell]
    exact List.suffix_append _ _

/-- A plot that succeeds ends the run with zero. -/
theorem code_eq_zero_of_plot {files : FileTree} {input : String} {arguments : List String}
    (harguments : Invocation.ofArguments arguments = .ok (.plot r))
    (hok : (@plot (StateM Desk) _ (Desk.hostReading stdin) r ⟨files, input, [], []⟩).1 = .ok ()) :
    (outcomeReading stdin files input arguments).code = 0 := by
  rw [outcomeReading_eq stdin files input harguments]
  cases hplot : @plot (StateM Desk) _ (Desk.hostReading stdin) r ⟨files, input, [], []⟩ with
  | mk result last =>
    rw [hplot] at hok
    cases hok
    rfl

/-- The text of a report is the whole output: it is printed, or it is what its file then holds. -/
theorem delivers_of_text {files : FileTree} {input text : String} {arguments : List String}
    {s : Settings} {formulas : List String} {report : Report}
    (harguments : Invocation.ofArguments arguments = .ok (.plot r))
    (hloaded : settings (m := StateM Desk) r ⟨files, input, [], []⟩ = (loaded, desk))
    (hgoes : r.GoesBy stdin loaded desk s formulas)
    (hreport : Report.run s.reading s.drawing formulas = .ok report)
    (htext : r.outputFormat = .csv ∧ text = Csv.table report.groups ∨
      r.outputFormat = .json ∧ text = FamilyGroup.jsonText report.groups) :
    (r.output = none → outcomeReading stdin files input arguments =
      ⟨0, ⟨desk.tree, input, [text], report.skipped.reverse⟩⟩) ∧
    ∀ path later, r.output = some path → desk.tree.write path (.text text) = .ok later →
      outcomeReading stdin files input arguments =
          ⟨0, ⟨later, input, [], report.skipped.reverse⟩⟩ ∧
        later.read path = .ok text := by
  rw [outcomeReading_eq stdin files input harguments,
    plot_of_text hloaded hgoes hreport htext, deliver_eq]
  refine ⟨fun houtput => by rw [houtput], fun path later houtput hwrite => ?_⟩
  rw [houtput]
  dsimp only
  rw [hwrite]
  exact ⟨rfl, FileTree.read_of_write hwrite⟩

/-- A run that fails has printed nothing and changed no file but that of the standard settings. -/
theorem unchanged_of_failed {stdin : String → Except FileFault String} {files : FileTree}
    {input : String} {arguments : List String}
    (hcode : (outcomeReading stdin files input arguments).code ≠ 0) :
    (outcomeReading stdin files input arguments).desk.printed = [] ∧
      ∀ place, place ≠ Desk.settingsPlace files →
        (outcomeReading stdin files input arguments).desk.tree.content? place =
          files.content? place := by
  cases harguments : Invocation.ofArguments arguments with
  | error fault =>
    have hrun : outcomeReading stdin files input arguments =
        ⟨2, ⟨files, input, [], ["error: " ++ fault.message]⟩⟩ := by
      unfold outcomeReading run
      rw [harguments]
      rfl
    rw [hrun]
    exact ⟨rfl, fun _ _ => rfl⟩
  | ok invocation =>
    cases invocation with
    | version =>
      refine absurd ?_ hcode
      unfold outcomeReading run
      rw [harguments]
      rfl
    | help =>
      refine absurd ?_ hcode
      unfold outcomeReading run
      rw [harguments]
      rfl
    | plot r =>
      rw [outcomeReading_eq stdin files input harguments] at hcode ⊢
      cases hplot : @plot (StateM Desk) _ (Desk.hostReading stdin) r ⟨files, input, [], []⟩ with
      | mk result last =>
        rw [hplot] at hcode
        cases result with
        | ok _ => exact absurd rfl hcode
        | error e =>
          have hkept := keeps_settings r ⟨files, input, [], []⟩
          obtain ⟨-, htree, hprinted⟩ := fails_of_plot rfl hplot
          refine ⟨hprinted.trans hkept.printed, fun place hplace => ?_⟩
          exact (congrArg (fun t : FileTree => t.content? place) htree).trans
            (hkept.content place hplace)

/-- A run that fails leaves no output: nothing is printed, and no file is made or changed but that
of the standard settings. A plot fails with the error of a failing check, and a picture that
overflows breaks the run off. A table or a JSON text is put out if no check fails, and so is a picture
of shapes that does not overflow. Refused formulas are none of the checks: they make no difference to
the groups of a report, and with a report for which a table or a JSON text is wanted the run
succeeds, whatever the capacity of the cache; it names the refused formulas in order, and its output
is the text of the groups alone. -/
theorem fails_or_delivers (stdin : String → Except FileFault String) (files : FileTree)
    (input : String) (arguments : List String) :
    ((outcomeReading stdin files input arguments).code ≠ 0 →
      (outcomeReading stdin files input arguments).desk.printed = [] ∧
        ∀ place, place ≠ Desk.settingsPlace files →
          (outcomeReading stdin files input arguments).desk.tree.content? place =
            files.content? place) ∧
    ∀ (r : Request) (loaded : Settings) (desk : Desk),
      Invocation.ofArguments arguments = .ok (.plot r) →
      settings (m := StateM Desk) r ⟨files, input, [], []⟩ = (loaded, desk) →
      (∀ e, r.Fails stdin loaded desk e →
        (outcomeReading stdin files input arguments).code = 1 ∧
          e.lines <:+ (outcomeReading stdin files input arguments).desk.said.reverse) ∧
      (r.Overflows stdin loaded desk →
        (outcomeReading stdin files input arguments).code = 101) ∧
      ((∀ e, ¬r.Fails stdin loaded desk e) →
        (r.outputFormat = .csv ∨ r.outputFormat = .json ∨
          r.outputFormat = .svg ∧ ¬r.Overflows stdin loaded desk) →
        (outcomeReading stdin files input arguments).code = 0) ∧
      ∀ (s : Settings) (formulas : List String), r.GoesBy stdin loaded desk s formulas →
        (Report.run s.reading s.drawing
            (formulas.filter fun formula => (s.reading.read formula).isOk)).map Report.groups =
          (Report.run s.reading s.drawing formulas).map Report.groups ∧
        ∀ report, Report.run s.reading s.drawing formulas = .ok report →
          report.diagnostics =
            (s.reading.readAll formulas).filterMap ReadFormula.diagnostic? ∧
          ∀ text, (r.outputFormat = .csv ∧ text = Csv.table report.groups ∨
              r.outputFormat = .json ∧ text = FamilyGroup.jsonText report.groups) →
            (r.output = none → outcomeReading stdin files input arguments =
              ⟨0, ⟨desk.tree, input, [text], report.skipped.reverse⟩⟩) ∧
            ∀ path later, r.output = some path → desk.tree.write path (.text text) = .ok later →
              outcomeReading stdin files input arguments =
                  ⟨0, ⟨later, input, [], report.skipped.reverse⟩⟩ ∧
                later.read path = .ok text := by
  refine ⟨unchanged_of_failed, fun r loaded desk harguments hloaded => ?_⟩
  refine ⟨fun e hfails => ?_, fun hoverflows => ?_, fun hnone hformat => ?_,
    fun s formulas hgoes => ⟨?_, ?_⟩⟩
  · exact hfails.code_eq ▸ ended_of_plot harguments (plot_of_fails hloaded hfails)
  · exact (ended_of_plot harguments (plot_of_overflows hloaded hoverflows)).1
  · refine code_eq_zero_of_plot harguments (exists_ok_of_plot hloaded hnone ?_)
    rcases hformat with h | h | ⟨-, h⟩
    · exact not_overflows_of_text (Or.inl h)
    · exact not_overflows_of_text (Or.inr h)
    · exact h
  · exact Report.run_filter_read s.reading s.drawing formulas
  · refine fun report hreport => ⟨?_, fun text htext =>
      delivers_of_text harguments hloaded hgoes hreport htext⟩
    rw [(Report.run_eq_ok hreport).2, Report.diagnosticsOf_outcomesOf]

/-- With a line and a refused formula, the table of the line is written to an absolute path, over a
file that is there; and with a range of two parts, that file is kept. -/
theorem fails_or_delivers_table :
    let files : FileTree := ⟨[(["tmp", "a.csv"], .text "old")], [], ["home"]⟩
    let table := outcome files "" ["-e", "linear:2,3:0,1,1", "-e", "bogus:1", "--format", "csv",
      "-o", "/tmp/a.csv"]
    let ranged := outcome files "" ["-e", "y=x", "--range", "0,1", "-o", "/tmp/a.csv"]
    table.code = 0 ∧
    table.desk.printed = [] ∧
    table.desk.tree.read "/tmp/a.csv" =
      .ok ("family,label,x,y,draw_x,draw_y\n" ++
        "linear,\"linear:2,3:0,1,1\",0.0,3.0,10.0,490.0\n" ++
        "linear,\"linear:2,3:0,1,1\",1.0,5.0,790.0,10.0\n") ∧
    table.desk.said =
      ["skipped bogus:1: InvalidFamilyKey in 'bogus:1': unknown family key 'bogus'"] ∧
    ranged.code = 1 ∧
    ranged.desk.tree.content? ["tmp", "a.csv"] = some (.text "old") := by
  intro files table ranged
  have hsettings : ∀ r : Request, r.settingsFile = none →
      settings (m := StateM Desk) r ⟨files, "", [], []⟩ =
        (.standard, (standardSettings (m := StateM Desk) ⟨files, "", [], []⟩).2) := by
    intro r hfile
    have hstandard :
        (standardSettings (m := StateM Desk) ⟨files, "", [], []⟩).1 = .standard := by
      decide +kernel
    rw [settings, hfile]
    exact Prod.ext hstandard rfl
  let wanted : Request :=
    { formulas := ["linear:2,3:0,1,1", "bogus:1"], format := some .csv, output := some "/tmp/a.csv" }
  let mistaken : Request :=
    { formulas := ["y=x"], range := some "0,1", output := some "/tmp/a.csv" }
  have hreport : (Report.run .standard .standard wanted.formulas).map
      (fun report => (Csv.table report.groups, report.skipped)) =
        .ok ("family,label,x,y,draw_x,draw_y\n" ++
          "linear,\"linear:2,3:0,1,1\",0.0,3.0,10.0,490.0\n" ++
          "linear,\"linear:2,3:0,1,1\",1.0,5.0,790.0,10.0\n",
          ["skipped bogus:1: InvalidFamilyKey in 'bogus:1': unknown family key 'bogus'"]) := by
    decide +kernel
  obtain ⟨report, hrun, hmade⟩ := map_eq_ok hreport
  obtain ⟨htext, hskipped⟩ := Prod.mk.inj hmade
  obtain ⟨-, hplots⟩ := fails_or_delivers .ok files ""
    ["-e", "linear:2,3:0,1,1", "-e", "bogus:1", "--format", "csv", "-o", "/tmp/a.csv"]
  obtain ⟨-, -, -, hgroups⟩ := hplots wanted _ _ (by decide +kernel) (hsettings wanted rfl)
  obtain ⟨-, hdelivers⟩ := hgroups .standard wanted.formulas
    ⟨by decide +kernel, rfl, List.cons_ne_nil _ _⟩
  obtain ⟨-, htable⟩ := hdelivers report hrun
  have hwritten : ((standardSettings (m := StateM Desk) ⟨files, "", [], []⟩).2.tree.write
      "/tmp/a.csv" (.text (Csv.table report.groups))).isOk = true := by
    rw [htext]
    decide +kernel
  cases hwrite : (standardSettings (m := StateM Desk) ⟨files, "", [], []⟩).2.tree.write
      "/tmp/a.csv" (.text (Csv.table report.groups)) with
  | error fault => rw [hwrite] at hwritten; cases hwritten
  | ok later =>
    obtain ⟨hdone, hread⟩ := (htable _ (Or.inl ⟨rfl, rfl⟩)).2 _ later rfl hwrite
    rw [outcomeReading_ok] at hdone
    obtain ⟨hunchanged, hrefused⟩ := fails_or_delivers .ok files ""
      ["-e", "y=x", "--range", "0,1", "-o", "/tmp/a.csv"]
    obtain ⟨hfails, -⟩ := hrefused mistaken _ _ (by decide +kernel) (hsettings mistaken rfl)
    have hcode := (hfails _ (.range rfl (Or.inl (by decide +kernel)))).1
    rw [outcomeReading_ok] at hcode hunchanged
    refine ⟨congrArg Outcome.code hdone, congrArg (fun o => o.desk.printed) hdone, ?_, ?_, hcode, ?_⟩
    · rw [← htext, ← hread]
      exact congrArg (fun o => o.desk.tree.read "/tmp/a.csv") hdone
    · refine (congrArg (fun o => o.desk.said) hdone).trans ?_
      rw [hskipped]
      rfl
    · refine ((hunchanged (by rw [hcode]; decide)).2 _ (by decide)).trans ?_
      rfl

end Command

end CurvePlot
