import CurvePlot.Text.Blank
import CurvePlot.Text.Digit
import Mathlib

/-!
# Where texts are cut

A text is cut at the first separator. Without one it is its own first part and its own only piece,
and a text with no blank at its ends is not trimmed. Whether one text occurs in another is Mathlib's
infix relation (`Text.contains_iff`), so that its lemmas apply.
-/

namespace CurvePlot.Text

variable {c d separator : Char} {part text : List Char}

/-- The text is cut at the first separator. -/
theorem cut_append_cons {front behind : List Char} (h : separator ∉ front) :
    cut separator (front ++ separator :: behind) = (front, some behind) := by
  induction front with
  | nil => simp [cut]
  | cons c rest ih =>
    rw [List.cons_append, cut, if_neg (head_ne_of_not_mem h),
      ih fun hrest => h (List.mem_cons_of_mem _ hrest)]

/-- Without the separator there is one piece. -/
theorem pieces_of_not_mem (h : separator ∉ text) : pieces separator text = [text] := by
  induction text with
  | nil => rfl
  | cons c rest ih =>
    rw [pieces, if_neg (head_ne_of_not_mem h), ih fun hrest => h (List.mem_cons_of_mem _ hrest)]

/-- The first piece ends at the first separator. -/
theorem pieces_append_cons {front behind : List Char} (h : separator ∉ front) :
    pieces separator (front ++ separator :: behind) = front :: pieces separator behind := by
  induction front with
  | nil => simp [pieces]
  | cons c rest ih =>
    rw [List.cons_append, pieces, if_neg (head_ne_of_not_mem h),
      ih fun hrest => h (List.mem_cons_of_mem _ hrest)]

/-- The pieces on the two sides of a separator are those of the text. -/
theorem pieces_append (front behind : List Char) :
    pieces separator (front ++ separator :: behind) =
      pieces separator front ++ pieces separator behind := by
  induction front with
  | nil => simp [pieces]
  | cons c rest ih =>
    rw [List.cons_append, pieces, pieces, ih]
    split
    · rfl
    · cases hrest : pieces separator rest with
      | nil => exact absurd hrest (pieces_ne_nil separator rest)
      | cons piece others => rfl

/-- A text with the separator is in more than one piece. -/
theorem two_le_length_pieces (h : separator ∈ text) : 2 ≤ (pieces separator text).length := by
  obtain ⟨front, behind, rfl⟩ := List.append_of_mem h
  have hfront := List.length_pos_of_ne_nil (pieces_ne_nil separator front)
  have hbehind := List.length_pos_of_ne_nil (pieces_ne_nil separator behind)
  rw [pieces_append, List.length_append]
  omega

/-- The pieces of a list are its parts. -/
theorem pieces_intercalate {texts : List (List Char)} (hne : texts ≠ [])
    (h : ∀ text ∈ texts, separator ∉ text) :
    pieces separator ([separator].intercalate texts) = texts := by
  induction texts with
  | nil => exact absurd rfl hne
  | cons text rest ih =>
    have htext : separator ∉ text := h text (by simp)
    cases rest with
    | nil => simpa using pieces_of_not_mem htext
    | cons next rest =>
      have hrest := ih (by simp) fun other hother => h other (by simp [hother])
      rw [List.intercalate_cons_cons, List.append_assoc, List.singleton_append,
        pieces_append_cons htext, hrest]

/-- The characters of joined parts: the separator stands before each part but the first. -/
theorem toList_intercalate_cons (separator part : String) (parts : List String) :
    (String.intercalate separator (part :: parts)).toList =
      part.toList ++ parts.flatMap fun p => separator.toList ++ p.toList := by
  induction parts generalizing part with
  | nil => simp
  | cons next parts ih =>
    rw [String.intercalate_cons_cons, String.toList_append, String.toList_append, ih,
      List.flatMap_cons, List.append_assoc, List.append_assoc]

/-- A text that starts and ends with other characters than blanks is not trimmed. -/
theorem trim_of_ends (hc : isBlank c = false) (hd : isBlank d = false) :
    trim (c :: (text ++ [d])) = c :: (text ++ [d]) := by
  have hfront : (c :: (text ++ [d])).dropWhile isBlank = c :: (text ++ [d]) := by
    rw [List.dropWhile_cons, hc]
    rfl
  have hback : (c :: (text ++ [d])).reverse = d :: (c :: text).reverse := by simp
  rw [trim, hfront, hback, List.dropWhile_cons, hd, if_neg Bool.false_ne_true, ← hback,
    List.reverse_reverse]

/-- Whether a character is a visible ASCII character. -/
def isGraphic (c : Char) : Bool :=
  0x20 < c.toNat && c.toNat < 0x7F

/-- A visible character is not blank. -/
theorem not_isBlank_of_isGraphic (h : isGraphic c = true) : isBlank c = false := by
  simp only [isGraphic, Bool.and_eq_true, decide_eq_true_eq] at h
  have hne : ∀ n : Nat, n ≤ 0x20 ∨ 0x7F ≤ n → (c.toNat == n) = false := by
    intro n hn
    simp only [beq_eq_false_iff_ne]
    omega
  have hgt : ∀ n : Nat, 0x7F ≤ n → decide (n ≤ c.toNat) = false := by
    intro n hn
    simp only [decide_eq_false_iff_not]
    omega
  have hle : decide (c.toNat ≤ 0xD) = false := by
    simp only [decide_eq_false_iff_not]
    omega
  simp [isBlank, hne, hgt, hle]

/-- The codes of the digits. -/
theorem toNat_of_digit (h : isAsciiDigit c = true) : 0x30 ≤ c.toNat ∧ c.toNat ≤ 0x39 := by
  simpa [isAsciiDigit, Char.le_def, UInt32.le_iff_toNat_le] using h

/-- A digit is visible. -/
theorem isGraphic_of_digit (h : isAsciiDigit c = true) : isGraphic c = true := by
  have hrange := toNat_of_digit h
  simp only [isGraphic, Bool.and_eq_true, decide_eq_true_eq]
  omega

/-- No blanks are dropped where none stands in front. -/
theorem dropWhile_isBlank_of_head (h : ∀ c ∈ text.head?, isBlank c = false) :
    text.dropWhile isBlank = text := by
  cases text with
  | nil => rfl
  | cons c rest => rw [List.dropWhile_cons, h c rfl]; rfl

/-- A text without any blank is not trimmed. -/
theorem trim_of_not_blank (h : ∀ c ∈ text, isBlank c = false) : trim text = text := by
  have hreverse : ∀ c ∈ text.reverse, isBlank c = false := fun c hc => h c (List.mem_reverse.mp hc)
  rw [trim, dropWhile_isBlank_of_head fun c hc => h c (List.mem_of_mem_head? hc),
    dropWhile_isBlank_of_head fun c hc => hreverse c (List.mem_of_mem_head? hc),
    List.reverse_reverse]

/-- Trimming takes blanks alone. -/
theorem mem_trim (hc : isBlank c = false) (h : c ∈ text) : c ∈ trim text := by
  have hkeep : ∀ part : List Char, c ∈ part → c ∈ part.dropWhile isBlank := by
    intro part hpart
    rw [← List.takeWhile_append_dropWhile (p := isBlank) (l := part), List.mem_append] at hpart
    rcases hpart with htaken | hkept
    · rw [(List.all_eq_true.mp List.all_takeWhile) c htaken] at hc
      cases hc
    · exact hkept
  rw [trim, List.mem_reverse]
  exact hkeep _ (List.mem_reverse.mpr (hkeep text h))

/-- Trimming adds no character. -/
theorem mem_of_mem_trim (h : c ∈ trim text) : c ∈ text := by
  rw [trim, List.mem_reverse] at h
  exact (List.dropWhile_sublist _).mem (List.mem_reverse.mp ((List.dropWhile_sublist _).mem h))

/-- What is trimmed off are blanks at the two ends. -/
theorem exists_trim (text : List Char) : ∃ front back, text = front ++ (trim text ++ back) ∧
    (∀ c ∈ front, isBlank c = true) ∧ ∀ c ∈ back, isBlank c = true := by
  have hfront := List.takeWhile_append_dropWhile (p := isBlank) (l := text)
  have hback := List.takeWhile_append_dropWhile (p := isBlank) (l := (text.dropWhile isBlank).reverse)
  refine ⟨text.takeWhile isBlank, ((text.dropWhile isBlank).reverse.takeWhile isBlank).reverse, ?_,
    fun c hc => List.mem_takeWhile_imp hc,
    fun c hc => List.mem_takeWhile_imp (List.mem_reverse.mp hc)⟩
  rw [trim, ← List.reverse_append, hback, List.reverse_reverse, hfront]

/-- Behind a front without blanks at its ends, only blanks at the end are trimmed off. -/
theorem exists_trim_append (front text : List Char) (hne : front ≠ [])
    (hhead : ∀ c ∈ front.head?, isBlank c = false)
    (hlast : ∀ c ∈ front.getLast?, isBlank c = false) :
    ∃ body back, text = body ++ back ∧ trim (front ++ text) = front ++ body ∧
      ∀ c ∈ back, isBlank c = true := by
  have hsplit := List.takeWhile_append_dropWhile (p := isBlank) (l := text.reverse)
  refine ⟨(text.reverse.dropWhile isBlank).reverse, (text.reverse.takeWhile isBlank).reverse, ?_, ?_,
    fun c hc => List.mem_takeWhile_imp (List.mem_reverse.mp hc)⟩
  · rw [← List.reverse_append, hsplit, List.reverse_reverse]
  · have hfront : ∀ c ∈ (front ++ text).head?, isBlank c = false := by
      rwa [List.head?_append_of_ne_nil _ hne]
    have hreverse : front.reverse.dropWhile isBlank = front.reverse :=
      dropWhile_isBlank_of_head (by rwa [List.head?_reverse])
    rw [trim, dropWhile_isBlank_of_head hfront, List.reverse_append, List.dropWhile_append]
    split
    · next hempty =>
      rw [List.isEmpty_iff.mp hempty, hreverse]
      simp
    · simp

/-- Blanks in front do not count where all of them are taken out. -/
theorem compact_dropWhile (text : List Char) : compact (text.dropWhile isBlank) = compact text := by
  induction text with
  | nil => rfl
  | cons c rest ih =>
    cases hc : isBlank c with
    | true =>
      rw [List.dropWhile_cons_of_pos hc, ih]
      simp [compact, hc]
    | false => rw [List.dropWhile_cons_of_neg (by simp [hc])]

/-- Neither do blanks at either end. -/
theorem compact_trim (text : List Char) : compact (trim text) = compact text := by
  have hreverse : ∀ part : List Char, compact part.reverse = (compact part).reverse := by
    intro part
    rw [compact, compact, List.filter_reverse]
  rw [trim, hreverse, compact_dropWhile, hreverse, List.reverse_reverse, compact_dropWhile]

/-- A text without blanks is compact. -/
theorem compact_of_not_blank (h : ∀ c ∈ text, isBlank c = false) : compact text = text := by
  rw [compact, List.filter_eq_self]
  simpa using h

/-- Taking the blanks out does not move the cut at a visible separator. -/
theorem cut_compact (h : isBlank separator = false) (text : List Char) :
    cut separator (compact text) =
      (compact (cut separator text).1, (cut separator text).2.map compact) := by
  induction text with
  | nil => rfl
  | cons c rest ih =>
    simp only [compact] at ih
    cases hblank : isBlank c with
    | true =>
      have hc : (c == separator) = false := by
        rw [beq_eq_false_iff_ne]
        rintro rfl
        rw [hblank] at h
        cases h
      simp [compact, cut, hblank, hc, ih]
    | false => cases hc : c == separator <;> simp [compact, cut, hblank, hc, ih]

/-- A text stands behind a front that does not hold its first character. -/
theorem position_append {front behind : List Char} (h : c ∉ front) :
    position (c :: part) (front ++ c :: (part ++ behind)) = some front.length := by
  induction front with
  | nil => simp [position]
  | cons d rest ih =>
    have hd : (c :: part).isPrefixOf (d :: (rest ++ c :: (part ++ behind))) = false := by
      have hne : c ≠ d := fun heq => h (heq ▸ List.mem_cons_self)
      simp [List.isPrefixOf, hne]
    rw [List.cons_append, position, if_neg (by simp [hd]),
      ih fun hrest => h (List.mem_cons_of_mem _ hrest)]
    rfl

/-- A character that is no letter is its only spelling. -/
theorem eq_of_toLower_eq (h : c.toLower = d) (hd : d.isLower = false) : c = d := by
  by_cases hc : c.isUpper = true
  · have halpha : c.toLower.isLower = true := by
      rw [Char.isLower_toLower_eq_isAlpha, Char.isAlpha, hc, Bool.true_or]
    rw [h, hd] at halpha
    cases halpha
  · rw [← h, Char.toLower_eq_of_not_isUpper hc]

/-- Digits and what stands before them among the characters have one spelling. -/
theorem toLower_of_lt (h : c.toNat < 0x41) : c.toLower = c := by
  apply Char.toLower_eq_of_not_isUpper
  simp only [Char.isUpper, ge_iff_le, UInt32.le_iff_toNat_le, decide_eq_true_eq]
  rintro ⟨hlow, -⟩
  exact absurd (show 0x41 ≤ c.toNat from hlow) (Nat.not_le.mpr h)

/-- What is no letter stands in a text if it stands there in lower case. -/
theorem mem_of_mem_lower (hd : d.isLower = false) (h : d ∈ lower text) : d ∈ text := by
  obtain ⟨c, hc, heq⟩ := List.mem_map.mp h
  exact eq_of_toLower_eq heq hd ▸ hc

/-- Occurrence is the infix relation. -/
theorem contains_iff : contains part text = true ↔ part <:+: text := by
  induction text with
  | nil => simp [contains, position]
  | cons c rest ih =>
    rw [List.infix_cons_iff, ← ih, contains, contains, position]
    split
    · next hprefix => simp [List.isPrefixOf_iff_prefix.mp hprefix]
    · next hprefix =>
      have hno : ¬part <+: c :: rest := fun h => hprefix (List.isPrefixOf_iff_prefix.mpr h)
      simp [hno]

end CurvePlot.Text
