import CurvePlot.Command.Run
import Mathlib

/-!
# Stored texts are read back

Writing a file takes no folder away, so the path that led to its place still leads there
(`FileTree.locate_of_write`), and what was written is what is read (`FileTree.read_of_write`).
Settings are then read from the text that was stored (`Command.settingsIn_of_write`).
-/

namespace CurvePlot

namespace FileTree

variable {t later : FileTree}

/-- A path of a file is still that of one when a file is put. -/
theorem mem_replace_paths {files : List (List String × FileContent)} {path : List String}
    (h : path ∈ files.map Prod.fst) (place : List String) (content : FileContent) :
    path ∈ (replace files place content).map Prod.fst := by
  induction files with
  | nil => cases h
  | cons file files ih =>
    rw [replace]
    split
    · next heq =>
      rcases List.mem_cons.mp h with rfl | h
      · rw [eq_of_beq heq]
        exact List.mem_cons_self
      · exact List.mem_cons_of_mem _ h
    · rcases List.mem_cons.mp h with rfl | h
      · exact List.mem_cons_self
      · exact List.mem_cons_of_mem _ (ih h)

/-- A folder is still there when a file is put. -/
theorem isFolder_replace {place : List String} (h : t.isFolder place = true)
    (other : List String) (content : FileContent) :
    ({ t with files := replace t.files other content } : FileTree).isFolder place = true := by
  simp only [isFolder, Bool.or_eq_true] at h ⊢
  rcases h with h | h
  · exact Or.inl h
  · obtain ⟨file, hfile, haround⟩ := List.any_eq_true.mp h
    have hpath := mem_replace_paths (List.mem_map_of_mem hfile) other content
    obtain ⟨file', hfile', hsame⟩ := List.mem_map.mp hpath
    refine Or.inr (List.any_eq_true.mpr ⟨file', hfile', ?_⟩)
    rw [hsame]
    exact haround

/-- Names lead to the same place in a tree with more folders. -/
theorem walk_of_isFolder (h : ∀ place, t.isFolder place = true → later.isFolder place = true)
    {place found : List String} {names : List String} (hwalk : t.walk place names = .ok found) :
    later.walk place names = .ok found := by
  induction names generalizing place with
  | nil => exact hwalk
  | cons name names ih =>
    rw [walk] at hwalk ⊢
    split at hwalk
    · next hfolder =>
      rw [if_pos (h place hfolder)]
      exact ih hwalk
    · split at hwalk <;> cases hwalk

/-- A file is written to the place of its path, which is no folder. -/
theorem write_eq_ok {path : String} {content : FileContent}
    (h : t.write path content = .ok later) :
    ∃ place, t.locate (.ofText path) = .ok place ∧ (FilePath.ofText path).isFolder = false ∧
      later = { t with files := replace t.files place content } := by
  unfold write at h
  dsimp only at h
  cases hplace : t.locate (.ofText path) with
  | error fault =>
    rw [hplace] at h
    cases h
  | ok place =>
    rw [hplace] at h
    change (if _ then _ else if _ then _ else _) = _ at h
    split at h
    · cases h
    · split at h
      · cases h
      · next hname =>
        cases h
        exact ⟨place, rfl, by simpa using hname, rfl⟩

/-- The path of a file leads to its place after the file was written. -/
theorem locate_of_write {path : String} {content : FileContent}
    (h : t.write path content = .ok later) :
    later.locate (.ofText path) = t.locate (.ofText path) := by
  obtain ⟨place, hplace, -, rfl⟩ := write_eq_ok h
  rw [hplace]
  exact walk_of_isFolder (fun _ hfolder => isFolder_replace hfolder place content) hplace

/-- A text that was written is read. -/
theorem read_of_write {path text : String} (h : t.write path (.text text) = .ok later) :
    later.read path = .ok text := by
  have hlocate := locate_of_write h
  obtain ⟨place, hplace, hname, rfl⟩ := write_eq_ok h
  have hcontent : content? { t with files := replace t.files place (.text text) } place =
      some (.text text) := lookup_replace t.files place (.text text)
  simp only [read, hlocate, hplace, hcontent, hname, bind, Except.bind, Bool.false_eq_true,
    if_false]

end FileTree

/-- A desk writes files in its tree. -/
theorem Desk.write_eq (desk : Desk) (path : String) (content : FileContent) :
    Host.write (m := StateM Desk) path content desk =
      match desk.tree.write path content with
      | .error fault => (.error fault, desk)
      | .ok tree => (.ok (), { desk with tree := tree }) := by
  change (match desk.tree.write path content with
    | .error fault => (return .error fault : StateM Desk (Except FileFault Unit))
    | .ok tree => do
      modify fun desk : Desk => { desk with tree := tree }
      return .ok ()) desk = _
  cases desk.tree.write path content <;> rfl

/-- The settings in a file that was written are those of the text. -/
theorem Command.settingsIn_of_write {desk later : Desk} {path text : String}
    (h : Host.write (m := StateM Desk) path (.text text) desk = (.ok (), later)) :
    Command.settingsIn (m := StateM Desk) path later = (Settings.ofText text.toList, later) := by
  have hwrite : desk.tree.write path (.text text) = .ok later.tree := by
    rw [Desk.write_eq] at h
    split at h
    · cases h
    · next htree =>
      cases h
      exact htree
  have hread : Host.read (m := StateM Desk) path later = (.ok text, later) :=
    congrArg (Prod.mk · later) (FileTree.read_of_write hwrite)
  simp only [Command.settingsIn, bind, StateT.bind, hread]
  rfl

end CurvePlot
