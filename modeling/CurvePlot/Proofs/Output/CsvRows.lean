import CurvePlot.Output.Csv
import CurvePlot.Proofs.Output.GroupReading
import CurvePlot.Proofs.Text.Cuts

/-!
# Tables are read back

A reader of tables goes through the characters once (`Csv.Reader.step`). A comma ends a field and a
line feed a row, except between quotes, where a doubled quote stands for one. It finds in the table
of any rows these rows again (`Csv.rows?_table`), whatever their fields hold. In the table of a
report it finds the header and one row for each mapped sample under the label of its own series, and
the texts of the numbers are read back as the numbers (`Csv.rows?_table_of_run`).
-/

namespace CurvePlot.Csv

/-- Where in a field the reader stands. -/
inductive Position where
  /-- Before the first character. -/
  | start
  /-- In a field without quotes. -/
  | plain
  /-- Between quotes. -/
  | quoted
  /-- Behind a quote that closes the field, or is the first of two. -/
  | closed
deriving DecidableEq, Repr

/-- A reader and what it has read. -/
structure Reader where
  /-- Where in the field it stands. -/
  position : Position
  /-- The characters of the field so far. -/
  field : List Char
  /-- The earlier fields of the row. -/
  fields : List String
  /-- The earlier rows. -/
  rows : List (List String)
deriving DecidableEq, Repr

namespace Reader

/-- The reader before a row. -/
def before (rows : List (List String)) : Reader :=
  ⟨.start, [], [], rows⟩

/-- One more character in the field. -/
def add (r : Reader) (position : Position) (c : Char) : Reader :=
  { r with position := position, field := r.field ++ [c] }

/-- The end of a field. -/
def endField (r : Reader) : Reader :=
  { r with position := .start, field := [], fields := r.fields ++ [String.ofList r.field] }

/-- The end of a row. -/
def endRow (r : Reader) : Reader :=
  before (r.rows ++ [r.fields ++ [String.ofList r.field]])

/-- The next character. Between quotes all characters but the quote stand for themselves. Elsewhere
a quote may stand at the start of a field or behind another quote only, behind a closing quote only
the end of the field, and a carriage return nowhere. -/
def step (r : Reader) (c : Char) : Option Reader :=
  match r.position with
  | .start =>
    if c = ',' then some r.endField
    else if c = '\n' then some r.endRow
    else if c = '"' then some { r with position := .quoted }
    else if c = '\r' then none
    else some (r.add .plain c)
  | .plain =>
    if c = ',' then some r.endField
    else if c = '\n' then some r.endRow
    else if c = '"' ∨ c = '\r' then none
    else some (r.add .plain c)
  | .quoted => if c = '"' then some { r with position := .closed } else some (r.add .quoted c)
  | .closed =>
    if c = ',' then some r.endField
    else if c = '\n' then some r.endRow
    else if c = '"' then some (r.add .quoted c)
    else none

/-- All characters of a text. -/
def run (r : Reader) (text : List Char) : Option Reader :=
  text.foldlM step r

/-- The rows at the end of the text, whose last row need not be ended. -/
def finish? (r : Reader) : Option (List (List String)) :=
  match r.position with
  | .quoted => none
  | .start => if r.fields = [] then some r.rows else some r.endRow.rows
  | .plain | .closed => some r.endRow.rows

end Reader

/-- The rows of a table as it is read. -/
def rows? (text : List Char) : Option (List (List String)) :=
  ((Reader.before []).run text).bind Reader.finish?

namespace Reader

variable {r : Reader}

/-- The next character is read first. -/
theorem run_cons_of_step {c : Char} {next : Reader} (h : r.step c = some next)
    (text : List Char) : r.run (c :: text) = next.run text := by
  rw [run, List.foldlM_cons, h]
  rfl

/-- A text is read behind another one. -/
theorem run_append_of_run {front : List Char} {next : Reader} (h : r.run front = some next)
    (back : List Char) : r.run (front ++ back) = next.run back := by
  rw [run] at h
  rw [run, List.foldlM_append, h]
  rfl

/-- Outside quotes a comma ends the field. -/
theorem step_comma (h : r.position ≠ .quoted) : r.step ',' = some r.endField := by
  unfold step
  cases hposition : r.position with
  | quoted => exact absurd hposition h
  | start | plain | closed => rfl

/-- Outside quotes a line feed ends the row. -/
theorem step_lineFeed (h : r.position ≠ .quoted) : r.step '\n' = some r.endRow := by
  unfold step
  cases hposition : r.position with
  | quoted => exact absurd hposition h
  | start | plain | closed => rfl

/-- A character that needs no quotes goes into the field. -/
theorem step_plain (h : r.position = .start ∨ r.position = .plain) {c : Char}
    (hc : isSpecial c = false) : r.step c = some (r.add .plain c) := by
  simp only [isSpecial, Bool.or_eq_false_iff, beq_eq_false_iff_ne] at hc
  obtain ⟨⟨⟨hcomma, hquote⟩, hreturn⟩, hfeed⟩ := hc
  rcases h with h | h <;> simp [step, h, hcomma, hquote, hreturn, hfeed]

/-- So does a text of such characters. -/
theorem run_plain {text : List Char} (h : r.position = .start ∨ r.position = .plain)
    (ht : ∀ c ∈ text, isSpecial c = false) :
    ∃ position, position ≠ .quoted ∧
      r.run text = some { r with position := position, field := r.field ++ text } := by
  induction text generalizing r with
  | nil =>
    refine ⟨r.position, ?_, by simp [run]⟩
    rcases h with h | h <;> simp [h]
  | cons c text ih =>
    have hstep := step_plain h (ht c List.mem_cons_self)
    obtain ⟨position, hposition, hrun⟩ :=
      ih (r := r.add .plain c) (Or.inr rfl) fun d hd => ht d (List.mem_cons_of_mem _ hd)
    refine ⟨position, hposition, ?_⟩
    rw [run_cons_of_step hstep, hrun]
    simp [add]

/-- Between quotes the escaped characters go into the field. -/
theorem run_escape (text : List Char) (h : r.position = .quoted) :
    r.run (text.flatMap escape) = some { r with field := r.field ++ text } := by
  induction text generalizing r with
  | nil => simp [run]
  | cons c text ih =>
    have hc : r.run (escape c) = some (r.add .quoted c) := by
      by_cases hquote : c = '"' <;> simp [run, escape, step, hquote, h, add]
    rw [List.flatMap_cons, run_append_of_run hc, ih rfl]
    simp [add, h]

/-- At the start of a field its text is read, and then the field may end. -/
theorem run_field (text : String) (h : r.position = .start) (hempty : r.field = []) :
    ∃ position, position ≠ .quoted ∧
      r.run (Csv.field text).toList =
        some { r with position := position, field := text.toList } := by
  cases hspecial : text.toList.any isSpecial with
  | true =>
    have hopen : r.step '"' = some { r with position := .quoted } := by simp [step, h]
    have hinner : run { r with position := .quoted } (text.toList.flatMap escape) =
        some { r with position := .quoted, field := text.toList } := by
      rw [run_escape text.toList rfl, hempty]
      rfl
    have hclose : step { r with position := .quoted, field := text.toList } '"' =
        some { r with position := .closed, field := text.toList } := rfl
    have htext : (Csv.field text).toList = '"' :: (text.toList.flatMap escape ++ ['"']) := by
      simp [Csv.field, hspecial]
    refine ⟨.closed, by simp, ?_⟩
    rw [htext, run_cons_of_step hopen, run_append_of_run hinner, run_cons_of_step hclose]
    rfl
  | false =>
    have hplain : ∀ c ∈ text.toList, isSpecial c = false := by simpa using hspecial
    obtain ⟨position, hposition, hrun⟩ := run_plain (Or.inl h) hplain
    rw [hempty, List.nil_append] at hrun
    exact ⟨position, hposition, by rw [field_eq_self hspecial, hrun]⟩

/-- The fields of a row are read up to the end of the row. -/
theorem run_fields (text : String) (texts : List String) (h : r.position = .start)
    (hempty : r.field = []) :
    r.run ((Csv.field text).toList ++ ((texts.flatMap fun t => ',' :: (Csv.field t).toList) ++
      ['\n'])) = some (before (r.rows ++ [r.fields ++ text :: texts])) := by
  induction texts generalizing r text with
  | nil =>
    obtain ⟨position, hposition, hrun⟩ := run_field text h hempty
    rw [run_append_of_run hrun, List.flatMap_nil, List.nil_append,
      run_cons_of_step (step_lineFeed hposition)]
    simp [run, endRow]
  | cons next texts ih =>
    obtain ⟨position, hposition, hrun⟩ := run_field text h hempty
    rw [run_append_of_run hrun, List.flatMap_cons, List.append_assoc, List.cons_append,
      run_cons_of_step (step_comma hposition), ih next rfl rfl]
    simp [endField]

/-- A row is read. -/
theorem run_row {fields : List String} (h : fields ≠ []) (rows : List (List String)) :
    (before rows).run (row fields).toList = some (before (rows ++ [fields])) := by
  obtain ⟨text, texts, rfl⟩ := List.exists_cons_of_ne_nil h
  have htext : (row (text :: texts)).toList = (Csv.field text).toList ++
      ((texts.flatMap fun t => ',' :: (Csv.field t).toList) ++ ['\n']) := by
    rw [row, String.toList_append, List.map_cons, Text.toList_intercalate_cons, List.flatMap_map,
      List.append_assoc]
    rfl
  rw [htext, run_fields text texts rfl rfl]
  rfl

/-- Rows are read one after the other. -/
theorem run_rows {table : List (List String)} (h : ∀ fields ∈ table, fields ≠ [])
    (rows : List (List String)) :
    (before rows).run (String.join (table.map row)).toList = some (before (rows ++ table)) := by
  induction table generalizing rows with
  | nil => simp [run]
  | cons fields table ih =>
    have hrow := run_row (h fields List.mem_cons_self) rows
    rw [List.map_cons, String.join_cons, String.toList_append, run_append_of_run hrow,
      ih (fun f hf => h f (List.mem_cons_of_mem _ hf)), List.append_assoc]
    rfl

end Reader

/-- The rows of a table are the rows that were written, whatever their fields hold. -/
theorem rows?_join {table : List (List String)} (h : ∀ fields ∈ table, fields ≠ []) :
    rows? (String.join (table.map row)).toList = some table := by
  rw [rows?, Reader.run_rows h]
  rfl

/-- The mapped samples of a series in a group: those that both axes can show, at their places. -/
def mappedOf (o : DrawingOptions) (g : FamilyGroup) (s : Series) : List MappedSample :=
  (s.samples.filterMap o.scales.plot?).map (o.canvas.place g.mapping.xExtent g.mapping.yExtent)

/-- Where a group maps its series one by one, its rows are those of the series in order. -/
theorem groupRows_eq {g : FamilyGroup} {mapped : Series → List MappedSample}
    (h : g.mapping.series = g.series.map mapped) :
    groupRows g = g.series.flatMap fun s => (mapped s).map (sampleFields g.family s.label) := by
  have hpairs : g.series.zip g.mapping.series = g.series.map fun s => (s, mapped s) := by
    have hzip : (g.series.map id).zip (g.series.map mapped) = g.series.map fun s => (s, mapped s) :=
      List.zip_map'
    rwa [List.map_id, ← h] at hzip
  rw [groupRows, hpairs, List.flatMap_map]

/-- The rows of a group have fields. -/
theorem ne_nil_of_mem_groupRows {g : FamilyGroup} {fields : List String}
    (h : fields ∈ groupRows g) :
    fields ≠ [] := by
  obtain ⟨p, -, hp⟩ := List.mem_flatMap.mp h
  obtain ⟨m, -, rfl⟩ := List.mem_map.mp hp
  exact List.cons_ne_nil _ _

/-- The table of groups is read as the header and the rows of the groups. -/
theorem rows?_table (groups : List FamilyGroup) :
    rows? (table groups).toList = some (header :: groups.flatMap groupRows) := by
  refine rows?_join fun fields hfields => ?_
  rcases List.mem_cons.mp hfields with rfl | hfields
  · exact List.cons_ne_nil _ _
  · obtain ⟨g, -, hg⟩ := List.mem_flatMap.mp hfields
    exact ne_nil_of_mem_groupRows hg

/-- The numbers in the rows of a finite group are read back from their texts. -/
theorem read?_write_of_mem {g : FamilyGroup} (hg : g.IsFinite) {samples : List MappedSample}
    (hsamples : samples ∈ g.mapping.series) {m : MappedSample} (hm : m ∈ samples) {v : Float}
    (hv : v ∈ [m.x, m.y, m.drawX, m.drawY]) : Double.read? (numbers.write v).toList = some v := by
  have hfinite := hg.mapping.series samples hsamples m hm
  simp only [List.mem_cons, List.not_mem_nil, or_false] at hv
  rcases hv with rfl | rfl | rfl | rfl
  · exact Double.read?_write numbers hfinite.x
  · exact Double.read?_write numbers hfinite.y
  · exact Double.read?_write numbers hfinite.drawX
  · exact Double.read?_write numbers hfinite.drawY

/-- A report maps the series of its groups one by one. Its table is read as the header and, group by
group and series by series, one row for each mapped sample, which holds the name of the family, the
label of the series and the texts of the four numbers, from which these are read back; without mapped
samples, as the header. -/
theorem rows?_table_of_run {rules : ReadingRules} {o : DrawingOptions} {formulas : List String}
    {report : Report} (h : Report.run rules o formulas = .ok report) :
    (∀ g ∈ report.groups, g.mapping.series = g.series.map (mappedOf o g)) ∧
      rows? (table report.groups).toList =
        some (["family", "label", "x", "y", "draw_x", "draw_y"] ::
          report.groups.flatMap fun g => g.series.flatMap fun s => (mappedOf o g s).map fun m =>
            [g.family.name, s.label, numbers.write m.x, numbers.write m.y, numbers.write m.drawX,
              numbers.write m.drawY]) ∧
      (∀ g ∈ report.groups, ∀ s ∈ g.series, ∀ m ∈ mappedOf o g s,
        ∀ v ∈ [m.x, m.y, m.drawX, m.drawY], Double.read? (numbers.write v).toList = some v) ∧
      ((∀ g ∈ report.groups, ∀ samples ∈ g.mapping.series, samples = []) →
        rows? (table report.groups).toList =
          some [["family", "label", "x", "y", "draw_x", "draw_y"]]) := by
  have hparallel : ∀ g ∈ report.groups, g.mapping.series = g.series.map (mappedOf o g) :=
    (Report.faithful_of_run h).parallel
  have hrows : report.groups.flatMap groupRows = report.groups.flatMap fun g =>
      g.series.flatMap fun s => (mappedOf o g s).map (sampleFields g.family s.label) :=
    List.flatMap_congr fun g hg => groupRows_eq (hparallel g hg)
  have hread : rows? (table report.groups).toList = some (header :: report.groups.flatMap fun g =>
      g.series.flatMap fun s => (mappedOf o g s).map (sampleFields g.family s.label)) := by
    rw [rows?_table, hrows]
  refine ⟨hparallel, hread, fun g hg s hs m hm v hv => ?_, fun hempty => ?_⟩
  · have hmapped : mappedOf o g s ∈ g.mapping.series := hparallel g hg ▸ List.mem_map_of_mem hs
    exact read?_write_of_mem (Report.isFinite_of_run h g hg) hmapped hm hv
  have hnone : ∀ g ∈ report.groups, (g.series.flatMap fun s =>
      (mappedOf o g s).map (sampleFields g.family s.label)) = [] := by
    intro g hg
    refine List.flatMap_eq_nil_iff.mpr fun s hs => ?_
    have hmapped : mappedOf o g s ∈ g.mapping.series := hparallel g hg ▸ List.mem_map_of_mem hs
    rw [hempty g hg _ hmapped, List.map_nil]
  rw [hread, List.flatMap_eq_nil_iff.mpr hnone]
  rfl

/-- The labels of keyed formulas hold commas, and that of the second line a line feed. -/
theorem rows?_table_of_run_lines :
    ∃ report : Report,
      Report.run .standard .standard ["linear:2,3:0,1,1", "y = x +\n1"] = .ok report ∧
      (report.groups.flatMap FamilyGroup.series).map Series.label =
        ["linear:2,3:0,1,1", "y = x +\n1"] ∧
      rows? (table report.groups).toList =
        some (["family", "label", "x", "y", "draw_x", "draw_y"] ::
          report.groups.flatMap fun g => g.series.flatMap fun s =>
            (mappedOf .standard g s).map fun m =>
              [g.family.name, s.label, numbers.write m.x, numbers.write m.y,
                numbers.write m.drawX, numbers.write m.drawY]) := by
  have hlabels : (Report.run .standard .standard
      ["linear:2,3:0,1,1", "y = x +\n1"]).toOption.map (fun report =>
        (report.groups.flatMap FamilyGroup.series).map Series.label) =
      some ["linear:2,3:0,1,1", "y = x +\n1"] := by
    decide +kernel
  cases hrun : Report.run .standard .standard ["linear:2,3:0,1,1", "y = x +\n1"] with
  | error e => rw [hrun] at hlabels; cases hlabels
  | ok report =>
    rw [hrun] at hlabels
    exact ⟨report, rfl, Option.some.inj hlabels, (rows?_table_of_run hrun).2.1⟩

end CurvePlot.Csv
