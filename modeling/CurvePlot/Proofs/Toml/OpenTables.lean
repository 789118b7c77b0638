import CurvePlot.Toml.Document
import Mathlib

/-!
# Tables are filled in order

A header opens a table at a place in the document, and the keys under it fill that table one by one,
wherever it stands and whatever stands around it (`Toml.Place.IsOpen.foldlM_header`). A place is the
path of a table with the document as a function of what the table holds.
-/

namespace CurvePlot.Toml

/-- The node of a key with a value. -/
def valueNode (entry : String × TomlValue) : String × Node :=
  (entry.1, .value entry.2)

/-- The assignment of a value to a bare key. -/
def assignmentLine (entry : String × TomlValue) : Line :=
  .assignment ⟨⟨[], entry.1⟩, entry.2⟩

namespace Entries

/-- A key that no entry has is not found. -/
theorem lookup_eq_none {entries : Entries} {key : String} (h : key ∉ entries.map Prod.fst) :
    entries.lookup key = none := by
  rw [List.lookup_eq_none_iff]
  intro entry hentry
  exact bne_iff_ne.mpr fun heq => h (heq ▸ List.mem_map_of_mem hentry)

/-- A key that is missing in front is put behind. -/
theorem put_append {front : Entries} {key : String} (h : front.lookup key = none)
    (back : Entries) (node : Node) : put (front ++ back) key node = front ++ put back key node := by
  induction front with
  | nil => rfl
  | cons entry front ih =>
    obtain ⟨k, n⟩ := entry
    rw [List.lookup_cons] at h
    split at h
    · cases h
    · next hne =>
      have hother : (k == key) = false := by
        rw [BEq.comm]
        simpa using hne
      rw [List.cons_append, put, hother, ih h]
      rfl

/-- A key that is missing is put at the end. -/
theorem put_of_lookup_eq_none {entries : Entries} {key : String} (h : entries.lookup key = none)
    (node : Node) : entries.put key node = entries ++ [(key, node)] := by
  have hput := put_append h [] node
  rwa [List.append_nil] at hput

/-- The last entry is found where its key is new. -/
theorem lookup_append_singleton {entries : Entries} {key : String} (h : entries.lookup key = none)
    (node : Node) : (entries ++ [(key, node)]).lookup key = some node := by
  rw [← put_of_lookup_eq_none h node, lookup_put]

/-- It can be changed. -/
theorem put_append_singleton {entries : Entries} {key : String} (h : entries.lookup key = none)
    (node other : Node) :
    (entries ++ [(key, node)]).put key other = entries ++ [(key, other)] := by
  rw [put_append h, put, if_pos (beq_self_eq_true key)]

/-- What a longer path leads to is changed on the way. -/
theorem alter_append (dotted : Bool) (change : Origin → Entries → Option Entries)
    (path more : List String) (origin : Origin) (entries : Entries) :
    alter dotted change (path ++ more) origin entries =
      alter dotted (fun o inner => alter dotted change more o inner) path origin entries := by
  induction path generalizing origin entries with
  | nil => rfl
  | cons key path ih =>
    rw [List.cons_append, alter, alter]
    simp only [ih]

/-- The values of entries behind others. -/
theorem toValues_append (front back : Entries) :
    toValues (front ++ back) = toValues front ++ toValues back := by
  induction front with
  | nil => rfl
  | cons entry front ih =>
    obtain ⟨key, node⟩ := entry
    rw [List.cons_append, toValues, toValues, ih, List.cons_append]

/-- The values of the nodes of values. -/
theorem toValues_map_valueNode (entries : List (String × TomlValue)) :
    toValues (entries.map valueNode) = entries := by
  induction entries with
  | nil => rfl
  | cons entry entries ih =>
    rw [List.map_cons, valueNode, toValues, ih, Node.toValue]

end Entries

/-- A place in a document: the path of a table, and the document around what it holds. -/
structure Place where
  /-- The path. -/
  path : List String
  /-- The document when the table holds the given entries. -/
  fill : Entries → Entries

namespace Place

/-- Whether the path leads to the table, which was opened by a header. -/
def IsOpen (p : Place) : Prop :=
  ∀ change inner, Entries.alter false change p.path .opened (p.fill inner) =
    (change .opened inner).map p.fill

/-- The table of the document. -/
def root : Place :=
  ⟨[], id⟩

/-- The table that a header opens in the table of a place, behind what is there. -/
def enter (p : Place) (front : Entries) (key : String) : Place :=
  ⟨p.path ++ [key], fun inner => p.fill (front ++ [(key, .table .opened inner)])⟩

/-- The empty path leads to the document. -/
theorem isOpen_root : root.IsOpen := by
  intro change inner
  change change .opened inner = _
  exact Option.map_id.symm ▸ rfl

/-- A longer path leads to the table that was entered. -/
theorem IsOpen.enter {p : Place} (hp : p.IsOpen) {front : Entries} {key : String}
    (hkey : front.lookup key = none) : (p.enter front key).IsOpen := by
  intro change inner
  have hlookup := Entries.lookup_append_singleton hkey (.table .opened inner)
  have hinner : Entries.alter false change [key] .opened (front ++ [(key, .table .opened inner)]) =
      (change .opened inner).map fun deeper => front ++ [(key, .table .opened deeper)] := by
    simp only [Entries.alter, hlookup, Bool.false_and, Bool.false_eq_true, if_false,
      Entries.put_append_singleton hkey]
  rw [Place.enter, Entries.alter_append, hp, hinner, Option.map_map]
  rfl

variable {p : Place}

/-- A header opens a table. -/
theorem IsOpen.add?_header (hp : p.IsOpen) {front : Entries} {key : String}
    (hkey : front.lookup key = none) (header : List String) :
    Draft.add? ⟨p.fill front, header⟩ (.header ⟨p.path, key⟩) =
      some ⟨(p.enter front key).fill [], (p.enter front key).path⟩ := by
  have hopen : (p.fill front).openTable p.path key = some ((p.enter front key).fill []) := by
    rw [Entries.openTable, hp]
    simp only [hkey, Option.map_some, Entries.put_of_lookup_eq_none hkey]
    rfl
  rw [Draft.add?, hopen]
  rfl

/-- A key is given a value in the table of the header. -/
theorem IsOpen.add?_assignment (hp : p.IsOpen) {front : Entries} {entry : String × TomlValue}
    (hkey : front.lookup entry.1 = none) :
    Draft.add? ⟨p.fill front, p.path⟩ (assignmentLine entry) =
      some ⟨p.fill (front ++ [valueNode entry]), p.path⟩ := by
  have hgive : (p.fill front).giveWithin p.path [] entry.1 entry.2 =
      some (p.fill (front ++ [valueNode entry])) := by
    rw [Entries.giveWithin, hp, Entries.give_nil hkey, Entries.put_of_lookup_eq_none hkey]
    rfl
  simp only [assignmentLine, Draft.add?, hgive, Option.map_some]

/-- Assignments under a header fill its table in order. -/
theorem IsOpen.foldlM_assignments (hp : p.IsOpen) (entries : List (String × TomlValue))
    (front : Entries) (h : (front.map Prod.fst ++ entries.map Prod.fst).Nodup) :
    (entries.map assignmentLine).foldlM Draft.add? ⟨p.fill front, p.path⟩ =
      some ⟨p.fill (front ++ entries.map valueNode), p.path⟩ := by
  induction entries generalizing front with
  | nil => simp
  | cons entry entries ih =>
    have hkey : front.lookup entry.1 = none := by
      have hapart := (List.nodup_append.mp h).2.2
      exact Entries.lookup_eq_none fun hmem =>
        hapart entry.1 hmem entry.1 List.mem_cons_self rfl
    have hlater : ((front ++ [valueNode entry]).map Prod.fst ++ entries.map Prod.fst).Nodup := by
      rwa [List.map_append, List.append_assoc]
    have hrest := ih _ hlater
    rw [List.append_assoc] at hrest
    rw [List.map_cons, List.foldlM_cons, hp.add?_assignment hkey]
    exact hrest

/-- A header with assignments under it opens a table and fills it. -/
theorem IsOpen.foldlM_header (hp : p.IsOpen) {front : Entries} {key : String}
    (hkey : front.lookup key = none) {entries : List (String × TomlValue)}
    (h : (entries.map Prod.fst).Nodup) (header : List String) :
    (.header ⟨p.path, key⟩ :: entries.map assignmentLine).foldlM Draft.add?
        ⟨p.fill front, header⟩ =
      some ⟨(p.enter front key).fill (entries.map valueNode), (p.enter front key).path⟩ := by
  have hfill := (hp.enter hkey).foldlM_assignments entries []
    (by rwa [List.map_nil, List.nil_append])
  rw [List.foldlM_cons, hp.add?_header hkey header]
  exact hfill

end Place

end CurvePlot.Toml
