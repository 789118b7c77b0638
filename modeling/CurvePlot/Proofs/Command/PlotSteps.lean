import CurvePlot.Proofs.Command.StoredText
import CurvePlot.Proofs.Plot.CacheTransparency

/-!
# The steps of a plot

What each step of a plot gives and leaves at a desk, as one equation for each: collecting the
formulas, putting the output out, presenting the report, and the plot as a whole
(`Command.plot_eq`). The standard input may be anything that reading it can come to. The report is
the one without a cache (`Settings.report_eq_run`).
-/

namespace CurvePlot

namespace Desk

/-- A host in memory whose standard input need not be a text: what comes of reading it is given for
the input that lies there. -/
@[reducible]
def hostReading (stdin : String → Except FileFault String) : Host (StateM Desk) where
  settingsFile := Host.settingsFile
  read := Host.read
  readInput := return stdin (← get).input
  write := Host.write
  print := Host.print
  say := Host.say

/-- A step goes on with what the one before it gave and left. -/
theorem bind_apply {α β : Type} (step : StateM Desk α) (next : α → StateM Desk β) (desk : Desk) :
    (step >>= next) desk = next (step desk).1 (step desk).2 := rfl

/-- The desk with lines said, one after the other. -/
def tell (desk : Desk) (lines : List String) : Desk :=
  { desk with said := lines.reverse ++ desk.said }

/-- What was said is followed by the lines. -/
theorem said_tell (desk : Desk) (lines : List String) :
    (desk.tell lines).said.reverse = desk.said.reverse ++ lines := by
  rw [tell, List.reverse_append, List.reverse_reverse]

/-- Lines are said one after the other. -/
theorem forM_say (desk : Desk) (lines : List String) :
    lines.forM (Host.say (m := StateM Desk)) desk = ((), desk.tell lines) := by
  induction lines generalizing desk with
  | nil => rfl
  | cons line lines ih =>
    have hrest := ih { desk with said := line :: desk.said }
    rw [tell, List.reverse_cons, List.append_assoc, List.singleton_append]
    exact hrest

end Desk

/-- A cache makes no difference to a report. -/
theorem Settings.report_eq_run (s : Settings) (formulas : List String) :
    s.report formulas = Report.run s.reading s.drawing formulas := by
  unfold report
  split
  · rfl
  · have hfound := (OutcomeCache.outcomes_eq_map (OutcomeCache.sound_empty s.cacheCapacity)
      s.reading formulas).1
    simp only [OutcomeCache.run, hfound, Report.run]

/-- The lines about the formulas that a report skips. -/
def Report.skipped (report : Report) : List String :=
  report.diagnostics.map fun d => "skipped " ++ d.formula ++ ": " ++ d.message

/-- The formulas of a request at a desk, or why they are not found. -/
def Request.formulasAt (stdin : String → Except FileFault String) (r : Request) (desk : Desk) :
    Except CommandError (List String) :=
  (@Command.formulas (StateM Desk) _ (Desk.hostReading stdin) r desk).1

namespace Command

/-- Formulas are on the command line and in the file, if there is one that can be read. -/
theorem formulas_eq (stdin : String → Except FileFault String) (r : Request) (desk : Desk) :
    @formulas (StateM Desk) _ (Desk.hostReading stdin) r desk =
      (match r.formulaFile with
        | none => .ok r.formulas
        | some path =>
          (if path == "-" then (stdin desk.input).mapError .unreadableInput
            else (desk.tree.read path).mapError (.unreadable path)).map
              fun text => r.formulas ++ formulasOf text,
        desk) := by
  unfold formulas
  cases r.formulaFile with
  | none => rfl
  | some path =>
    simp only [formulaText]
    split <;> rfl

/-- The output is written to its file or printed. -/
theorem deliver_eq (output : Option String) (content : FileContent) (desk : Desk) :
    deliver (m := StateM Desk) output content desk =
      match output, content with
      | some path, _ =>
        match desk.tree.write path content with
        | .error fault => (.error (.unwritable path fault), desk)
        | .ok tree => (.ok (), { desk with tree := tree })
      | none, .text text => (.ok (), { desk with printed := text :: desk.printed })
      | none, .picture _ => (.error .noOutput, desk) := by
  cases output with
  | none => cases content <;> rfl
  | some path =>
    unfold deliver
    dsimp only
    rw [Desk.bind_apply, Desk.write_eq]
    cases desk.tree.write path content <;> rfl

/-- The desk with the lines about skipped formulas said. -/
theorem present_eq (r : Request) (s : Settings) (formulas : List String) (desk : Desk) :
    present (m := StateM Desk) r s formulas desk =
      match Report.run s.reading s.drawing formulas with
      | .error e => (.error (.unmappable e), desk)
      | .ok report =>
        match r.content s report with
        | .error e => (.error e, desk.tell report.skipped)
        | .ok content =>
          deliver (m := StateM Desk) r.output content (desk.tell report.skipped) := by
  unfold present
  rw [Settings.report_eq_run]
  cases Report.run s.reading s.drawing formulas with
  | error e => rfl
  | ok report =>
    have hsay : (report.diagnostics.forM fun d =>
        Host.say (m := StateM Desk) ("skipped " ++ d.formula ++ ": " ++ d.message)) desk =
          ((), desk.tell report.skipped) := by
      rw [← Desk.forM_say, Report.skipped]
      exact congrFun (List.forM_map).symm desk
    dsimp only
    rw [Desk.bind_apply, hsay]
    cases r.content s report <;> rfl

/-- A plot is loaded, checked and presented. -/
theorem plot_eq (stdin : String → Except FileFault String) (r : Request) (desk : Desk)
    {loaded : Settings} {later : Desk}
    (h : settings (m := StateM Desk) r desk = (loaded, later)) :
    @plot (StateM Desk) _ (Desk.hostReading stdin) r desk =
      match loaded.withRequest r with
      | .error e => (.error e, later)
      | .ok s =>
        match r.formulasAt stdin later with
        | .error e => (.error e, later)
        | .ok [] => (.error .noFormulas, later)
        | .ok formulas => present (m := StateM Desk) r s formulas later := by
  unfold plot
  rw [Desk.bind_apply]
  have h' : @settings (StateM Desk) _ (Desk.hostReading stdin) r desk = (loaded, later) := h
  rw [h']
  dsimp only
  cases loaded.withRequest r with
  | error e => rfl
  | ok s =>
    dsimp only
    have hlater : @formulas (StateM Desk) _ (Desk.hostReading stdin) r later =
        (r.formulasAt stdin later, later) := by rw [Request.formulasAt, formulas_eq]
    rw [Desk.bind_apply, hlater]
    cases r.formulasAt stdin later with
    | error e => rfl
    | ok found => cases found <;> rfl

end Command

end CurvePlot
