import CurvePlot.Proofs.Formula.WrittenExpression

/-!
# Values are constant expressions

A value in a list is read as a double, and only what is none is read as a constant expression. The
first reading is a shortcut: what it takes is a constant expression too, with the same double, or
with none where the double is not finite (`constantValue?_of_read?`).

Two kinds of texts are read as doubles (`Double.read?_cases`). A number behind a sign is an
expression with the number as its only operand, and is evaluated as it is read, rounding and sign
included. The words for infinity and for NaN are names to an expression, and names without a
meaning, so they have no value either way.
-/

namespace CurvePlot

/-! ### What is read as a double -/

namespace Double

/-- The words that are read as doubles, in lower case. -/
def words : List String :=
  ["inf", "infinity", "nan"]

/-- Without a sign, a literal is read as a double, or a word that stands for no finite one. -/
theorem readUnsigned?_cases {text : List Char} {v : Float} (h : readUnsigned? text = some v) :
    (∃ l : Literal, l.WellFormed Text.isAsciiDigit ∧ text = l.text ∧ v = l.toFloat) ∨
      String.ofList (text.map Char.toLower) ∈ words ∧ (v = infinity ∨ v = nan) := by
  unfold readUnsigned? at h
  split at h
  · next l hscan =>
    cases h
    exact Or.inl ⟨l, Literal.wellFormed_of_scan? hscan, by
      rw [← Literal.scan?_text hscan, List.append_nil], rfl⟩
  · cases h
  · dsimp only at h
    split at h
    · next hword =>
      cases h
      rw [Bool.or_eq_true, beq_iff_eq, beq_iff_eq] at hword
      exact Or.inr ⟨by rcases hword with hword | hword <;> simp [words, hword], Or.inl rfl⟩
    · split at h
      · next hword =>
        cases h
        exact Or.inr ⟨by simp [words, beq_iff_eq.mp hword], Or.inr rfl⟩
      · cases h

/-- A text that is read as a double is a signed number, or a word behind a sign; the word stands for
no finite double. -/
theorem read?_cases {text : List Char} {v : Float} (h : read? text = some v) :
    (∃ p : SignedLiteral, p.Ascii ∧ text = p.text ∧ v = p.value) ∨
      ∃ (sign : Option Char) (word : List Char), (∀ c ∈ sign, c = '+' ∨ c = '-') ∧
        text = sign.toList ++ word ∧ String.ofList (word.map Char.toLower) ∈ words ∧
        v.isFinite = false := by
  have htext := splitSign_text text
  have hread : (readUnsigned? (splitSign text).2).map
      (fun w => if (splitSign text).1 == some '-' then -w else w) = some v := h
  obtain ⟨w, hw, rfl⟩ := Option.map_eq_some_iff.mp hread
  rcases readUnsigned?_cases hw with ⟨l, hl, hrest, rfl⟩ | ⟨hword, hw⟩
  · refine Or.inl ⟨⟨(splitSign text).1, l⟩, ⟨fun c => Literal.sign_of_splitSign, hl⟩, ?_, rfl⟩
    rw [SignedLiteral.text, ← hrest, htext]
  · refine Or.inr ⟨_, _, fun c => Literal.sign_of_splitSign, htext.symm, hword, ?_⟩
    rcases hw with rfl | rfl <;> split <;> decide +kernel

end Double

/-! ### The number as an expression -/

/-- A signed number is a constant expression of its value, if the value is finite. -/
theorem SignedLiteral.constantValue?_text {p : SignedLiteral} (hp : p.Ascii) :
    constantValue? p.text = Double.finite? p.value := by
  obtain ⟨e, he, hskeleton⟩ := Writes.exists_ofText (.lift (by decide) (.number hp)) (by decide)
  have hconstant : e.isConstant = true := by
    have hvariable : p.skeleton.hasVariable = false := by
      unfold skeleton Factor.signedSkeleton
      split <;> rfl
    rw [Expression.isConstant, ← Expr.hasVariable_skeleton, hskeleton, hvariable]
    rfl
  unfold constantValue?
  rw [he]
  simp only [hconstant, if_true]
  rw [Expression.toOption_evaluate, hskeleton, p.double?_skeleton]

/-! ### The words as expressions -/

/-- The spellings of an ASCII letter are ASCII letters. -/
theorem Text.isAsciiLetter_of_toLower {c : Char} (h : c.toLower.isLower = true) :
    Text.isAsciiLetter c = true := by
  rw [Char.isLower_toLower_eq_isAlpha, Char.isAlpha] at h
  simpa [Char.isUpper, Char.isLower, Text.isAsciiLetter, Char.le_def, or_comm] using h

/-- A word that is read as a double, in whatever spelling, is a name. -/
theorem Double.isNameChar_of_word {word : List Char}
    (h : String.ofList (word.map Char.toLower) ∈ words) :
    word ≠ [] ∧ ∀ c ∈ word, Text.isNameChar c = true := by
  have hletters : (words.all fun w => !w.toList.isEmpty && w.toList.all Char.isLower) = true := by
    decide +kernel
  have hlower := List.all_eq_true.mp hletters _ h
  rw [String.toList_ofList, Bool.and_eq_true, List.all_map, List.all_eq_true] at hlower
  refine ⟨fun hnil => ?_, fun c hc =>
    Text.isNameChar_of_isAsciiLetter (Text.isAsciiLetter_of_toLower (hlower.2 c hc))⟩
  simp [hnil] at hlower

/-- No such word has a meaning in an expression. -/
theorem Double.not_mem_knownNames {word : List Char}
    (h : String.ofList (word.map Char.toLower) ∈ words) : String.ofList word ∉ knownNames := by
  have hnames : ∀ name ∈ knownNames, String.ofList (name.toList.map Char.toLower) ∉ words := by
    decide +kernel
  intro hknown
  have hnone := hnames _ hknown
  rw [String.toList_ofList] at hnone
  exact hnone h

/-- Such a word, perhaps behind a sign, is no expression. -/
theorem constantValue?_word {sign : Option Char} {word : List Char}
    (hsign : ∀ c ∈ sign, c = '+' ∨ c = '-')
    (hword : String.ofList (word.map Char.toLower) ∈ Double.words) :
    constantValue? (sign.toList ++ word) = none := by
  obtain ⟨hne, hname⟩ := Double.isNameChar_of_word hword
  have hscans : Token.Scans (sign.toList ++ word)
      (sign.toList.map Factor.signLexeme ++ [.name (String.ofList word)]) := by
    have hbehind : Token.Scans (word ++ []) [.name (String.ofList word)] :=
      .word (Token.heads_name hne hname (by simp)) .nil
    rw [List.append_nil] at hbehind
    cases hs : sign with
    | none => exact hbehind
    | some c => exact Expression.scans_sign (Factor.ofSign?_eq_signLexeme (hsign c hs)) hbehind
  unfold constantValue?
  split
  · next e he =>
    -- The name would be one of those with a meaning.
    obtain ⟨ls, hls, hderives⟩ := Expression.exists_scans he
    have hmem : Lexeme.name (String.ofList word) ∈ ls := by
      rw [hls.unique hscans]
      simp
    exact absurd (hderives.mem_knownNames (Lexeme.mem_withProducts hmem))
      (Double.not_mem_knownNames hword)
  · rfl

/-! ### Both readings -/

/-- A text that is read as a double is a constant expression of this double, if it is finite, and
has no value as an expression otherwise. -/
theorem constantValue?_of_read? {text : List Char} {v : Float} (h : Double.read? text = some v) :
    constantValue? text = Double.finite? v := by
  rcases Double.read?_cases h with ⟨p, hp, rfl, rfl⟩ | ⟨sign, word, hsign, rfl, hword, hv⟩
  · exact p.constantValue?_text hp
  · rw [constantValue?_word hsign hword, Double.finite?, hv]
    rfl

/-- Nothing is no expression. -/
theorem constantValue?_nil : constantValue? [] = none := by
  decide +kernel

/-- Whatever the rules and the text, what the shortcut reads has the same value as a constant
expression, and none if it is not finite. So a value is what its text without separators is worth
as a constant expression, unless it is a word for a missing value; and it is finite. -/
theorem readValue?_eq_constantValue? (rules : ReadingRules) (text : List Char) :
    (∀ v, Double.read? (rules.ungrouped (Text.trim text)) = some v →
      constantValue? (rules.ungrouped (Text.trim text)) = Double.finite? v) ∧
    (readValue? rules text = if rules.isMissingWord (Text.trim text) then none
      else constantValue? (rules.ungrouped (Text.trim text))) ∧
    ∀ v, readValue? rules text = some v → v.isFinite = true := by
  refine ⟨fun v => constantValue?_of_read?, ?_, fun v => isFinite_of_readValue?⟩
  have hempty : Text.trim text = [] → rules.ungrouped (Text.trim text) = [] := by
    intro hnil
    rw [hnil, ReadingRules.ungrouped]
    split <;> rfl
  simp only [readValue?]
  cases hmissing : rules.isMissingWord (Text.trim text) with
  | true => simp
  | false =>
    by_cases hnil : Text.trim text = []
    · rw [hempty hnil, constantValue?_nil, hnil]
      rfl
    · simp only [List.isEmpty_iff, hnil, Bool.or_false, Bool.false_eq_true, if_false]
      split
      · next v hv => exact (constantValue?_of_read? hv).symm
      · rfl

/-- With an underscore between its groups `-1_000.e1` is read both ways as the same double; `-1e999`
is beyond the doubles, and missing both ways. -/
theorem readValue?_eq_constantValue?_grouped :
    let grouped : ReadingRules := ⟨["none"], some '_', 3, none⟩
    Double.read? (grouped.ungrouped (Text.trim " -1_000.e1".toList)) = some (-10000) ∧
      constantValue? (grouped.ungrouped (Text.trim " -1_000.e1".toList)) = some (-10000) ∧
      (readValue? grouped " -1_000.e1".toList = some (-10000) ∧
        (-10000 : Float).isFinite = true) ∧
      Double.read? (grouped.ungrouped (Text.trim "-1e999".toList)) = some (-Double.infinity) ∧
      constantValue? (grouped.ungrouped (Text.trim "-1e999".toList)) = none := by
  intro grouped
  obtain ⟨hsame, hvalue, hfinite⟩ := readValue?_eq_constantValue? grouped " -1_000.e1".toList
  obtain ⟨hgreat, -, -⟩ := readValue?_eq_constantValue? grouped "-1e999".toList
  have hread : Double.read? (grouped.ungrouped (Text.trim " -1_000.e1".toList)) = some (-10000) := by
    decide +kernel
  have hinfinite : Double.read? (grouped.ungrouped (Text.trim "-1e999".toList)) =
      some (-Double.infinity) := by decide +kernel
  have hconstant := hsame _ hread
  have hfound : readValue? grouped " -1_000.e1".toList = some (-10000) :=
    hvalue.trans ((if_neg (by decide +kernel)).trans hconstant)
  exact ⟨hread, hconstant, ⟨hfound, hfinite _ hfound⟩, hinfinite, hgreat _ hinfinite⟩

end CurvePlot
