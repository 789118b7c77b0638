import CurvePlot.Proofs.Expr.LexemeText

/-!
# Further blanks

How far a word reaches does not depend on what stands behind it, except that it could go on there;
and where it could not, it cannot do so behind further blanks (`Token.Heads.widen`). So blanks in
front of a text and behind it do not count (`Token.Scans.of_trim`).
-/

namespace CurvePlot

namespace Text

/-- Whether a text is another one with further blanks in it. -/
inductive Widens : List Char → List Char → Prop
  /-- The empty text is one without any. -/
  | nil : Widens [] []
  /-- A further blank. -/
  | blank {c : Char} {text wide : List Char} (hc : isBlank c = true) (h : Widens text wide) :
    Widens text (c :: wide)
  /-- A character of the text. -/
  | keep (c : Char) {text wide : List Char} (h : Widens text wide) :
    Widens (c :: text) (c :: wide)

/-- The first character is a further blank, or the first one of the text. -/
theorem Widens.head {text wide : List Char} (h : Widens text wide) {c : Char}
    (hc : c ∈ wide.head?) : isBlank c = true ∨ c ∈ text.head? := by
  cases h with
  | nil => cases hc
  | blank hblank _ => cases hc; exact Or.inl hblank
  | keep d _ => exact Or.inr hc

/-- The first character has a property that blanks have if the first one of the text has it. -/
theorem Widens.head_of {text wide : List Char} (h : Widens text wide) {p : Char → Prop}
    (hblank : ∀ c, isBlank c = true → p c) (htext : ∀ c ∈ text.head?, p c) :
    ∀ c ∈ wide.head?, p c := fun c hc => (h.head hc).elim (hblank c) (htext c)

/-- Blanks in front of a text are further ones. -/
theorem Widens.append {front text wide : List Char} (hfront : ∀ c ∈ front, isBlank c = true)
    (h : Widens text wide) : Widens text (front ++ wide) := by
  induction front with
  | nil => exact h
  | cons c front ih =>
    obtain ⟨hc, hrest⟩ := List.forall_mem_cons.mp hfront
    exact .blank hc (ih hrest)

/-- Blanks behind a text are further ones. -/
theorem widens_append {back : List Char} (hback : ∀ c ∈ back, isBlank c = true)
    (text : List Char) : Widens text (text ++ back) := by
  induction text with
  | nil =>
    have h := Widens.nil.append hback
    rwa [List.append_nil] at h
  | cons c text ih => exact .keep c ih

end Text

/-- A digit is not blank. -/
theorem Text.not_digit_of_isBlank {c : Char} (h : isBlank c = true) : isAsciiDigit c = false := by
  rw [Bool.eq_false_iff]
  intro hdigit
  rw [not_isBlank_of_isGraphic (isGraphic_of_digit hdigit)] at h
  cases h

/-- A blank is no other character that is none. -/
theorem Text.ne_of_isBlank {c d : Char} (h : isBlank c = true) (hd : isBlank d = false) :
    c ≠ d := by
  rintro rfl
  rw [h] at hd
  cases hd

/-- Where no power of ten begins, none begins with further blanks. -/
theorem Literal.scanPower_widen {text wide : List Char} (h : Text.Widens text wide)
    (hnone : scanPower Text.isAsciiDigit text = (none, text)) :
    scanPower Text.isAsciiDigit wide = (none, wide) := by
  cases wide with
  | nil => rfl
  | cons mark behind =>
    by_cases hmark : mark = 'e' ∨ mark = 'E'
    · -- The mark is no blank, so it stands in the text as well.
      cases h with
      | blank hblank _ =>
        have hother : Text.isBlank mark = false := by rcases hmark with rfl | rfl <;> decide
        exact absurd rfl (Text.ne_of_isBlank hblank hother)
      | keep _ h =>
        have hdigits := (scanPower_mark_cons hmark).mp hnone
        rw [scanPower_mark_cons hmark]
        cases h with
        | nil => exact hdigits
        | @blank c _ _ hblank _ =>
          have hsign : ¬((c == '+' || c == '-') = true) := by
            simp [Text.ne_of_isBlank hblank (d := '+') (by decide),
              Text.ne_of_isBlank hblank (d := '-') (by decide)]
          rw [splitSign, if_neg hsign]
          rintro d ⟨⟩
          exact Text.not_digit_of_isBlank hblank
        | keep c h =>
          rw [splitSign] at hdigits ⊢
          split at hdigits
          · next hsign =>
            rw [if_pos hsign]
            exact h.head_of (fun d => Text.not_digit_of_isBlank) hdigits
          · next hsign =>
            rw [if_neg hsign]
            exact hdigits
    · simp [scanPower, hmark]

/-- A literal that ends before a text ends before it with further blanks. -/
theorem Literal.Ends.widen {literal : Literal} {text wide : List Char}
    (h : literal.Ends Text.isAsciiDigit text) (hwide : Text.Widens text wide) :
    literal.Ends Text.isAsciiDigit wide :=
  ⟨hwide.head_of (fun c => Text.not_digit_of_isBlank) h.notDigit,
    fun hfraction hpower => hwide.head_of (fun c hc => Text.ne_of_isBlank hc (by decide))
      (h.notPoint hfraction hpower),
    fun hpower => scanPower_widen hwide (h.notPower hpower)⟩

namespace Token

/-- A word before a text is one before the text with further blanks. -/
theorem Heads.widen {l : Lexeme} {word text wide : List Char} (h : Heads l word text)
    (hwide : Text.Widens text wide) : Heads l word wide := by
  rcases h.cases with
    ⟨c, rfl, hc⟩ | ⟨literal, rfl, rfl, hl, hends, hpoint⟩ | ⟨rfl, hne, hname, hrest⟩
  · exact heads_sign hc wide
  · refine heads_number hl (hends.widen hwide) fun hwhole hpower => ?_
    exact hwide.head_of (fun c hc => Text.ne_of_isBlank hc (by decide)) (hpoint hwhole hpower)
  · refine heads_name hne hname (hwide.head_of (fun c hc => ?_) hrest)
    rw [Bool.eq_false_iff]
    intro hchar
    rw [Text.not_isBlank_of_isNameChar hchar] at hc
    cases hc

/-- Blanks in front of a text do not count. -/
theorem Scans.blanks_append {front text : List Char} {ls : List Lexeme}
    (hfront : ∀ c ∈ front, Text.isBlank c = true) (h : Scans text ls) :
    Scans (front ++ text) ls := by
  induction front with
  | nil => exact h
  | cons c front ih =>
    obtain ⟨hc, hrest⟩ := List.forall_mem_cons.mp hfront
    exact .blank hc (ih hrest)

/-- Blanks behind a text do not count. -/
theorem Scans.append_blanks {text back : List Char} {ls : List Lexeme} (h : Scans text ls)
    (hback : ∀ c ∈ back, Text.isBlank c = true) : Scans (text ++ back) ls := by
  induction h with
  | nil =>
    have hblanks := Scans.blanks_append hback .nil
    rwa [List.append_nil] at hblanks
  | blank hc _ ih => exact .blank hc ih
  | @word l word rest ls hword _ ih =>
    rw [List.append_assoc]
    exact .word (hword.widen (Text.widens_append hback rest)) ih

/-- A text is scanned as its part between the blanks at its ends. -/
theorem Scans.of_trim {text : List Char} {ls : List Lexeme} (h : Scans (Text.trim text) ls) :
    Scans text ls := by
  obtain ⟨front, back, htext, hfront, hback⟩ := Text.exists_trim text
  rw [htext]
  exact .blanks_append hfront (h.append_blanks hback)

end Token

end CurvePlot
