import CurvePlot.Formula.Reading
import CurvePlot.Proofs.Formula.SignRuns
import CurvePlot.Proofs.Text.Cuts

/-!
# What an explicit formula is read as

A formula that begins with `y=` and holds no colon is looked at as its normalized right side
(`Shape.ofFormula_explicit`), whose reader is known by the family of the curve
(`readExplicit_cases`). Behind the key of expressions stands the source of an expression, from which
only blanks at the ends are taken (`ReadingRules.read_expression`).
-/

namespace CurvePlot

/-! ### Shapes -/

/-- A formula behind `y=` without a colon is one of the explicit grammar, without a range. -/
theorem Shape.ofFormula_explicit {right : List Char} (hcolon : ':' ∉ right) :
    ofFormula ('y' :: '=' :: right) = .explicit (Signs.normalize right) none := by
  have hformula : ':' ∉ 'y' :: '=' :: right := by simpa using hcolon
  have hcut : Text.cut ':' (Text.trim ('y' :: '=' :: right)) =
      (Text.trim ('y' :: '=' :: right), none) :=
    Text.cut_of_not_mem fun hmem => hformula (Text.mem_of_mem_trim hmem)
  have hcompact : Text.compact ('y' :: '=' :: right) = 'y' :: '=' :: Text.compact right := rfl
  have hnone : ':' ∉ 'y' :: '=' :: Text.compact right := by
    simpa using fun hmem : ':' ∈ Text.compact right => hcolon (List.mem_filter.mp hmem).1
  rw [ofFormula_of_cut hcut, Text.compact_trim, hcompact, ofCompact, Text.cut_of_not_mem hnone]
  exact congrArg (explicit · none) (Signs.normalize_compact right)

/-- What `y=` and a right side are read as. -/
theorem ReadingRules.readExplicit_of_read {rules : ReadingRules} {right : List Char} {p : Plot}
    (hcolon : ':' ∉ right) (h : rules.read (String.ofList ('y' :: '=' :: right)) = .ok p) :
    readExplicit rules (Signs.normalize right) = .ok p.curve := by
  rw [read, String.toList_ofList, Shape.ofFormula_explicit hcolon, readShape] at h
  cases hread : readExplicit rules (Signs.normalize right) with
  | error fault => rw [hread] at h; cases h
  | ok curve => rw [hread] at h; cases h; rfl

/-- What the right side is read as is the curve of the formula. -/
theorem ReadingRules.exists_read_of_readExplicit {rules : ReadingRules} {right : List Char}
    {curve : Curve Float} (hcolon : ':' ∉ right)
    (h : readExplicit rules (Signs.normalize right) = .ok curve) :
    ∃ p, rules.read (String.ofList ('y' :: '=' :: right)) = .ok p ∧ p.curve = curve := by
  rw [read, String.toList_ofList, Shape.ofFormula_explicit hcolon, readShape, h]
  exact ⟨_, rfl, rfl⟩

/-! ### Readers and families -/

/-- The reader of powers of `e` yields exponentials. -/
theorem family_of_readExponential {α : Type} [Scalar α] {right : List Char} {curve : Curve α}
    (h : readExponential right = .ok curve) : curve.family = .exponential := by
  unfold readExponential at h
  split at h
  · cases h
  · dsimp only at h
    split at h
    · split at h
      · cases h; rfl
      · cases h
    · cases h

/-- The reader of logarithms yields logarithms. -/
theorem family_of_readLogarithm {rules : ReadingRules} {right : List Char} {curve : Curve Float}
    (h : readLogarithm rules right = .ok curve) : curve.family = .logarithmic := by
  unfold readLogarithm at h
  split at h
  · cases h
  · split at h
    · cases h; rfl
    · split at h
      · cases h
      · cases h; rfl

/-- The reader of sums of terms yields straight lines and parabolas. -/
theorem family_of_readPolynomial {α : Type} [Scalar α] [BEq α] {right : List Char}
    {curve : Curve α} (h : readPolynomial right = .ok (some curve)) :
    curve.family = .linear ∨ curve.family = .quadratic := by
  unfold readPolynomial at h
  split at h
  · split at h
    · split at h
      · split at h
        · cases h; exact Or.inl rfl
        · split at h
          · cases h; exact Or.inl rfl
          · cases h
      · cases h
    · cases h
    · cases h
  · split at h
    · split at h
      · cases h; exact Or.inr rfl
      · cases h
    · split at h
      · cases h; exact Or.inr rfl
      · cases h
      · cases h

/-- The reader of expressions yields expressions. -/
theorem expression_of_readExpression {text : List Char} {curve : Curve Float}
    (h : readExpression text = .ok curve) :
    ∃ e, Expression.ofText text = .ok e ∧ curve = .expression e := by
  unfold readExpression at h
  split at h
  · next e he => cases h; exact ⟨e, he, rfl⟩
  · cases h

/-- The family of the curve tells which reader read the right side. -/
theorem readExplicit_cases {rules : ReadingRules} {right : List Char} {curve : Curve Float}
    (h : readExplicit rules right = .ok curve) :
    curve.family = .exponential ∧ readExponential right = .ok curve ∨
    curve.family = .logarithmic ∧ readLogarithm rules right = .ok curve ∨
    (curve.family = .linear ∨ curve.family = .quadratic) ∧
      readPolynomial right = .ok (some curve) ∨
    ∃ e, Expression.ofText right = .ok e ∧ curve = .expression e := by
  unfold readExplicit at h
  split at h
  · exact Or.inl ⟨family_of_readExponential h, h⟩
  · split at h
    · exact Or.inr (Or.inl ⟨family_of_readLogarithm h, h⟩)
    · split at h
      · next polynomial hpolynomial =>
        cases h
        exact Or.inr (Or.inr (Or.inl ⟨family_of_readPolynomial hpolynomial, hpolynomial⟩))
      · exact Or.inr (Or.inr (Or.inr (expression_of_readExpression h)))
      · cases h

/-! ### The key of expressions -/

/-- Behind the key of expressions, a text without a colon is the source of an expression, up to
blanks at its ends. -/
theorem ReadingRules.read_expression {rules : ReadingRules} {source : List Char} {q : Plot}
    (hcolon : ':' ∉ source)
    (h : rules.read (String.ofList ('e' :: 'x' :: 'p' :: 'r' :: ':' :: source)) = .ok q) :
    ∃ body back e, source = body ++ back ∧ (∀ c ∈ back, Text.isBlank c = true) ∧
      Expression.ofText (Text.trim body) = .ok e ∧ q.curve = .expression e := by
  obtain ⟨body, back, hsource, htrim, hback⟩ :=
    Text.exists_trim_append ['e', 'x', 'p', 'r', ':'] source (by simp) (by simpa using by decide)
      (by simpa using by decide)
  have hbody : ':' ∉ body := fun hmem => hcolon (by simp [hsource, hmem])
  have hcut : Text.cut ':' (['e', 'x', 'p', 'r', ':'] ++ body) = (['e', 'x', 'p', 'r'], some body) :=
    rfl
  have hkey : Family.ofKey? (String.ofList (Text.trim (Text.lower ['e', 'x', 'p', 'r']))) =
      some .expression := by decide
  have hshape : Shape.ofFormula ('e' :: 'x' :: 'p' :: 'r' :: ':' :: source) =
      .keyed .expression body := by
    have hformula : 'e' :: 'x' :: 'p' :: 'r' :: ':' :: source = ['e', 'x', 'p', 'r', ':'] ++ source :=
      rfl
    rw [hformula]
    simp only [Shape.ofFormula, htrim, hcut, hkey]
  have hnone : Text.cut ':' body = (body, none) := Text.cut_of_not_mem hbody
  have hfamily : (Family.expression == Family.expression) = true := rfl
  rw [read, String.toList_ofList, hshape, readShape, readKeyed, hnone] at h
  simp only [hfamily, if_true] at h
  cases hempty : (Text.trim body).isEmpty with
  | true => simp [hempty] at h
  | false =>
    cases hread : readExpression (Text.trim body) with
    | error fault => simp [hempty, hread, Except.map] at h
    | ok curve =>
      simp only [hempty, hread, Except.map, Bool.false_eq_true, if_false] at h
      cases h
      obtain ⟨e, he, hcurve⟩ := expression_of_readExpression hread
      exact ⟨body, back, e, hsource, hback, he, hcurve⟩

end CurvePlot
