/-!
# Readers

A reader takes something off the head of a text and leaves the rest, or fails. The readers here are
those from which larger ones are put together: a given character, an optional part, and repetition,
which ends where its part fails or takes nothing off.
-/

namespace CurvePlot.Text

/-- Takes a value off the head of a text, or fails. -/
abbrev Reader (α : Type) := List Char → Option (α × List Char)

namespace Reader

variable {α : Type}

/-- The rest of the text behind a given head. -/
def skip? (head : List Char) (text : List Char) : Option (List Char) :=
  if head.isPrefixOf text then some (text.drop head.length) else none

/-- The value, or nothing where there is none to take. -/
def optional (read : Reader α) (text : List Char) : Option α × List Char :=
  match read text with
  | some (value, rest) => (some value, rest)
  | none => (none, text)

/-- All values that can be taken one after the other, and the rest. -/
def repeated (read : Reader α) (text : List Char) : List α × List Char :=
  match read text with
  | some (value, rest) =>
    if rest.length < text.length then
      let (values, final) := repeated read rest
      (value :: values, final)
    else ([], text)
  | none => ([], text)
termination_by text.length

/-- A given head is skipped. -/
theorem skip?_append (head rest : List Char) : skip? head (head ++ rest) = some rest := by
  simp [skip?]

/-- A value that is taken off is the first of the repetition. -/
theorem repeated_of_some {read : Reader α} {text rest : List Char} {value : α}
    (h : read text = some (value, rest)) (hlen : rest.length < text.length) :
    repeated read text = (value :: (repeated read rest).1, (repeated read rest).2) := by
  rw [repeated, h]
  simp [hlen]

/-- Where nothing can be taken off the repetition ends. -/
theorem repeated_of_none {read : Reader α} {text : List Char} (h : read text = none) :
    repeated read text = ([], text) := by
  rw [repeated, h]

/-- Texts in a row are read one by one, if each of them can be read in front of what may follow, none
is empty, and nothing can be read behind them. -/
theorem repeated_flatMap {β : Type} {read : Reader α} {write : β → List Char} (value : β → α)
    (Follows : List Char → Prop) {items : List β} {rest : List Char}
    (hread : ∀ item ∈ items, ∀ tail, Follows tail →
      read (write item ++ tail) = some (value item, tail))
    (hne : ∀ item ∈ items, write item ≠ [])
    (hfollows : ∀ item ∈ items, ∀ tail, Follows (write item ++ tail))
    (hrest : Follows rest) (hend : read rest = none) :
    repeated read (items.flatMap write ++ rest) = (items.map value, rest) := by
  induction items with
  | nil => exact repeated_of_none hend
  | cons item items ih =>
    have hlater := ih (fun i hi => hread i (List.mem_cons_of_mem _ hi))
      (fun i hi => hne i (List.mem_cons_of_mem _ hi))
      (fun i hi => hfollows i (List.mem_cons_of_mem _ hi))
    have htail : Follows (items.flatMap write ++ rest) := by
      cases items with
      | nil => exact hrest
      | cons next items =>
        rw [List.flatMap_cons, List.append_assoc]
        exact hfollows next (by simp) _
    have hlength := List.length_pos_iff.mpr (hne item List.mem_cons_self)
    have hfirst := hread item List.mem_cons_self _ htail
    rw [List.flatMap_cons, List.append_assoc, repeated_of_some hfirst (by simp; omega), hlater]
    rfl

end Reader

end CurvePlot.Text
