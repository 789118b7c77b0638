import CurvePlot.Proofs.Command.StoredText

/-!
# What loading the settings changes

A file that is written changes at its own place and nowhere else (`FileTree.content?_of_write`), and
without steps upwards that place is the path itself (`FileTree.walk_eq_append`). So every step of
loading the settings keeps a desk, but for folders and for the standard settings file, and with the
steps the whole of it does (`Command.keeps_settings`).
-/

namespace CurvePlot

namespace FileTree

variable {t later : FileTree}

/-- Any other file is as it was when a file is put. -/
theorem lookup_replace_of_ne {place other : List String} (h : other ≠ place)
    (files : List (List String × FileContent)) (content : FileContent) :
    (replace files place content).lookup other = files.lookup other := by
  have hother : (other == place) = false := beq_false_of_ne h
  induction files with
  | nil => rw [replace, List.lookup_cons, hother]
  | cons file rest ih =>
    obtain ⟨path, old⟩ := file
    rw [replace]
    split
    · next heq =>
      have hpath : path = place := eq_of_beq heq
      rw [List.lookup_cons, List.lookup_cons, hpath, hother]
    · rw [List.lookup_cons, List.lookup_cons, ih]

/-- A file that is written changes at its own place alone. -/
theorem content?_of_write {path : String} {content : FileContent}
    (h : t.write path content = .ok later) :
    ∃ place, t.locate (.ofText path) = .ok place ∧
      ∀ other, other ≠ place → later.content? other = t.content? other := by
  obtain ⟨place, hplace, -, rfl⟩ := write_eq_ok h
  exact ⟨place, hplace, fun other hother => lookup_replace_of_ne hother t.files content⟩

/-- Names that do not lead upwards lead to the place that they name. -/
theorem walk_eq_append {place found : List String} {names : List String} (hnames : ".." ∉ names)
    (h : t.walk place names = .ok found) : found = place ++ names := by
  induction names generalizing place with
  | nil =>
    cases h
    rw [List.append_nil]
  | cons name names ih =>
    obtain ⟨hname, hrest⟩ := not_or.mp fun hmem => hnames (List.mem_cons.mpr hmem)
    rw [walk] at h
    split at h
    · rw [if_neg (by simpa using Ne.symm hname)] at h
      rw [ih hrest h, List.append_assoc, List.singleton_append]
    · split at h <;> cases h

/-- A folder that is made changes neither a file nor where a command runs. -/
theorem kept_of_makeFolder? {place : List String} (h : t.makeFolder? place = some later) :
    later.working = t.working ∧ ∀ other, later.content? other = t.content? other := by
  unfold makeFolder? at h
  split at h
  · cases h
  · cases h
    exact ⟨rfl, fun _ => rfl⟩

end FileTree

/-- The place of the standard settings file, in the working folder of a tree. -/
def Desk.settingsPlace (t : FileTree) : List String :=
  t.working ++ (settingsFolder ++ [settingsName])

/-- What is written to the standard settings file is written there. -/
theorem FileTree.content?_of_write_settings {t later : FileTree} {content : FileContent}
    (h : t.write Desk.settingsPath content = .ok later) {place : List String}
    (hplace : place ≠ Desk.settingsPlace t) : later.content? place = t.content? place := by
  obtain ⟨written, hwritten, hothers⟩ := content?_of_write h
  have hpath : FilePath.ofText Desk.settingsPath =
      ⟨Desk.settingsFolder ++ [Desk.settingsName], false, false⟩ := by
    decide +kernel
  rw [hpath, locate, if_neg Bool.false_ne_true] at hwritten
  have hsame : written = Desk.settingsPlace t := walk_eq_append (by decide) hwritten
  exact hothers place fun heq => hplace (heq.trans hsame)

/-- A file is written where a command runs before and after. -/
theorem FileTree.working_of_write {t later : FileTree} {path : String} {content : FileContent}
    (h : t.write path content = .ok later) : later.working = t.working := by
  obtain ⟨_, -, -, rfl⟩ := write_eq_ok h
  rfl

/-- Whether a desk is as it was, but for folders and for the standard settings file. -/
structure Desk.Kept (desk later : Desk) : Prop where
  /-- The standard input is there. -/
  input : later.input = desk.input
  /-- Nothing was printed. -/
  printed : later.printed = desk.printed
  /-- Nothing was said. -/
  said : later.said = desk.said
  /-- The working folder is the same. -/
  working : later.tree.working = desk.tree.working
  /-- No other file was made or changed. -/
  content : ∀ place, place ≠ settingsPlace desk.tree →
    later.tree.content? place = desk.tree.content? place

/-- Whether a step leaves a desk as it was, but for folders and for the standard settings file. -/
def Desk.Keeps {α : Type} (step : StateM Desk α) : Prop :=
  ∀ desk, Kept desk (step desk).2

namespace Desk

variable {α β : Type}

/-- A desk is as it is. -/
theorem Kept.refl (desk : Desk) : Kept desk desk :=
  ⟨rfl, rfl, rfl, rfl, fun _ _ => rfl⟩

/-- A desk that is kept twice is kept. -/
theorem Kept.trans {desk between later : Desk} (h : Kept desk between) (h' : Kept between later) :
    Kept desk later := by
  refine ⟨h'.input.trans h.input, h'.printed.trans h.printed, h'.said.trans h.said,
    h'.working.trans h.working, fun place hplace => ?_⟩
  have hplace' : place ≠ settingsPlace between.tree := by
    rwa [settingsPlace, h.working]
  exact (h'.content place hplace').trans (h.content place hplace)

/-- A value changes nothing. -/
theorem keeps_pure (a : α) : Keeps (pure a) := Kept.refl

/-- Two steps that keep a desk keep it together. -/
theorem Keeps.bind {step : StateM Desk α} (hstep : Keeps step) {next : α → StateM Desk β}
    (hnext : ∀ desk, Keeps (next (step desk).1)) : Keeps (step >>= next) :=
  fun desk => (hstep desk).trans (hnext desk _)

/-- Reading a file changes nothing. -/
theorem keeps_read (path : String) : Keeps (Host.read path) := Kept.refl

/-- A desk has the folder for the standard settings file, or makes it. -/
theorem settingsFile_eq (desk : Desk) :
    Host.settingsFile (m := StateM Desk) desk =
      match desk.tree.makeFolder? (desk.tree.working ++ settingsFolder) with
      | none => (none, desk)
      | some tree => (some settingsPath, { desk with tree := tree }) := by
  change (match desk.tree.makeFolder? (desk.tree.working ++ settingsFolder) with
    | none => (return none : StateM Desk (Option String))
    | some tree => do
      modify fun desk : Desk => { desk with tree := tree }
      return some settingsPath) desk = _
  cases desk.tree.makeFolder? (desk.tree.working ++ settingsFolder) <;> rfl

/-- Looking for the standard settings file makes folders at most. -/
theorem keeps_settingsFile : Keeps (Host.settingsFile (m := StateM Desk)) := by
  intro desk
  rw [settingsFile_eq]
  cases hmade : desk.tree.makeFolder? (desk.tree.working ++ settingsFolder) with
  | none => exact Kept.refl desk
  | some tree =>
    obtain ⟨hworking, hcontent⟩ := FileTree.kept_of_makeFolder? hmade
    exact ⟨rfl, rfl, rfl, hworking, fun place _ => hcontent place⟩

/-- Writing the standard settings file changes no other one. -/
theorem keeps_write_settings (content : FileContent) : Keeps (Host.write settingsPath content) := by
  intro desk
  rw [Desk.write_eq]
  cases hwritten : desk.tree.write settingsPath content with
  | error fault => exact Kept.refl desk
  | ok tree =>
    exact ⟨rfl, rfl, rfl, FileTree.working_of_write hwritten,
      fun place hplace => FileTree.content?_of_write_settings hwritten hplace⟩

end Desk

namespace Command

/-- Loading the settings keeps a desk, but for the standard file of them. -/
theorem keeps_settings (r : Request) : Desk.Keeps (settings r) := by
  unfold settings
  split
  · refine (Desk.keeps_read _).bind fun desk => ?_
    split <;> exact Desk.keeps_pure _
  · refine Desk.keeps_settingsFile.bind fun desk => ?_
    rw [Desk.settingsFile_eq]
    cases desk.tree.makeFolder? (desk.tree.working ++ Desk.settingsFolder) with
    | none => exact Desk.keeps_pure _
    | some tree =>
      refine (Desk.keeps_read _).bind fun desk => ?_
      split
      · exact Desk.keeps_pure _
      · exact (Desk.keeps_write_settings _).bind fun _ => Desk.keeps_pure _

end Command

end CurvePlot
