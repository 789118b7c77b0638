import CurvePlot.Proofs.Text.Cuts

/-!
# Blanks at the ends of a text

Blanks at the ends of a text are trimmed off, so more of them change nothing. If the text is cut at
a visible separator, those in front stay with the first part and those behind with the last one
(`Text.trim_append_cons`); among the pieces between separators, too, it is the last one that bears
the blanks behind (`Text.pieces_append_back`).
-/

namespace CurvePlot.Text

variable {separator : Char} {front back : List Char}

/-- Blanks in front are trimmed off. -/
theorem trim_blank_append (h : ∀ c ∈ front, isBlank c = true) (text : List Char) :
    trim (front ++ text) = trim text := by
  rw [trim, List.dropWhile_append_of_pos h, trim]

/-- So are those behind. -/
theorem trim_append_blank (h : ∀ c ∈ back, isBlank c = true) (text : List Char) :
    trim (text ++ back) = trim text := by
  have hback : ∀ c ∈ back.reverse, isBlank c = true := fun c hc => h c (List.mem_reverse.mp hc)
  rw [trim, trim, List.dropWhile_append]
  split
  · next hempty =>
    -- The text itself holds blanks alone.
    have hall : back.dropWhile isBlank = [] := List.dropWhile_eq_nil_iff.mpr h
    rw [List.isEmpty_iff.mp hempty, hall]
  · rw [List.reverse_append, List.dropWhile_append_of_pos hback]

/-- A visible separator is no blank at an end. -/
theorem not_mem_of_blank (hvisible : isBlank separator = false)
    (h : ∀ c ∈ front, isBlank c = true) : separator ∉ front := by
  intro hmem
  rw [h separator hmem] at hvisible
  cases hvisible

/-- Blanks have no upper and lower case. -/
theorem lower_of_blank (h : ∀ c ∈ front, isBlank c = true) : lower front = front := by
  have hsame : ∀ c ∈ front, c.toLower = c := by
    intro c hc
    apply Char.toLower_eq_of_not_isUpper
    intro hupper
    have hgraphic : isGraphic c = true := by
      simp only [Char.isUpper, ge_iff_le, UInt32.le_iff_toNat_le, decide_eq_true_eq] at hupper
      have hlow : 0x41 ≤ c.toNat := hupper.1
      have hhigh : c.toNat ≤ 0x5A := hupper.2
      simp only [isGraphic, Bool.and_eq_true, decide_eq_true_eq]
      omega
    have hblank := h c hc
    rw [not_isBlank_of_isGraphic hgraphic] at hblank
    cases hblank
  rw [lower, List.map_congr_left hsame, List.map_id']

/-- Blanks behind a text that holds the separator stay with its last part, else with the whole. -/
theorem cut_append (text : List Char) (h : separator ∉ back) :
    cut separator (text ++ back) =
      match cut separator text with
      | (first, none) => (first ++ back, none)
      | (first, some second) => (first, some (second ++ back)) := by
  by_cases hmem : separator ∈ text
  · obtain ⟨first, second, rfl, hfirst⟩ := List.eq_append_cons_of_mem hmem
    rw [List.append_assoc, List.cons_append, cut_append_cons hfirst, cut_append_cons hfirst]
  · have hno : separator ∉ text ++ back := by simp [hmem, h]
    rw [cut_of_not_mem hmem, cut_of_not_mem hno]

/-- A text that is cut at a visible separator has the blanks at its ends in its two parts. -/
theorem trim_append_cons (hvisible : isBlank separator = false) {first : List Char}
    (hfirst : separator ∉ first) (second : List Char) :
    ∃ front key body back, first = front ++ key ∧ second = body ++ back ∧
      trim (first ++ separator :: second) = key ++ separator :: body ∧
      (∀ c ∈ front, isBlank c = true) ∧ ∀ c ∈ back, isBlank c = true := by
  obtain ⟨front, back, htext, hfront, hback⟩ := exists_trim (first ++ separator :: second)
  have hmem : separator ∈ trim (first ++ separator :: second) := mem_trim hvisible (by simp)
  obtain ⟨key, body, htrim, hkey⟩ := List.eq_append_cons_of_mem hmem
  -- Both forms of the text are cut at the same separator.
  have hparts : first ++ separator :: second = (front ++ key) ++ separator :: (body ++ back) := by
    rw [htrim] at htext
    simpa using htext
  have hno : separator ∉ front ++ key := by
    simp [not_mem_of_blank hvisible hfront, hkey]
  have hcut : cut separator (first ++ separator :: second) = (first, some second) :=
    cut_append_cons hfirst
  rw [hparts, cut_append_cons hno, Prod.mk.injEq, Option.some.injEq] at hcut
  exact ⟨front, key, body, back, hcut.1.symm, hcut.2.symm, htrim, hfront, hback⟩

/-- Characters behind a text without a separator among them lengthen the last piece. -/
theorem pieces_append_back (text : List Char) (h : separator ∉ back) :
    ∃ others last, pieces separator text = others ++ [last] ∧
      pieces separator (text ++ back) = others ++ [last ++ back] := by
  induction text with
  | nil => exact ⟨[], [], rfl, pieces_of_not_mem h⟩
  | cons c rest ih =>
    obtain ⟨others, last, hrest, hback⟩ := ih
    rw [List.cons_append, pieces, pieces, hrest, hback]
    by_cases hc : (c == separator) = true
    · exact ⟨[] :: others, last, by simp [hc], by simp [hc]⟩
    · cases others with
      | nil => exact ⟨[], c :: last, by simp [hc], by simp [hc]⟩
      | cons piece others => exact ⟨(c :: piece) :: others, last, by simp [hc], by simp [hc]⟩

/-- What stands in a list stands in one of its parts, if it is not the separator. -/
theorem not_mem_intercalate {c : Char} {texts : List (List Char)} (hc : c ≠ separator)
    (h : ∀ text ∈ texts, c ∉ text) : c ∉ [separator].intercalate texts := by
  induction texts with
  | nil => simp
  | cons text rest ih =>
    have hrest := ih fun other hother => h other (by simp [hother])
    have htext : c ∉ text := h text (by simp)
    cases rest with
    | nil => simpa using htext
    | cons next rest =>
      rw [List.intercalate_cons_cons]
      simp [htext, hc, hrest]

/-- A list of several parts holds the separator. -/
theorem mem_intercalate {texts : List (List Char)} (h : 2 ≤ texts.length) :
    separator ∈ [separator].intercalate texts := by
  match texts, h with
  | _ :: _ :: _, _ => simp [List.intercalate_cons_cons]

end CurvePlot.Text
