import CurvePlot.Proofs.Expr.LexemeText
import CurvePlot.Proofs.Formula.ConstantValues

/-!
# Constant expressions

An accepted source depends on the variable just when the name of the variable is one of its tokens.
Where it does not, no point matters: at two points evaluation comes to the same double, or stops at
the same part for the same cause, and only the point that is told beside the cause differs
(`Expr.evaluate_eq_of_not_hasVariable`). So the value that a list takes from a constant expression
at zero is the value of the expression everywhere.
-/

namespace CurvePlot

/-! ### The same failure at another point -/

/-- The cause as it is told at another point. -/
def NonFinite.movedTo (point : Float) : NonFinite → NonFinite
  | result value _ => result value point
  | cause => cause

/-- The missing value as it is told at another point. -/
def EvalError.movedTo (point : Float) (e : EvalError) : EvalError :=
  ⟨e.cause.movedTo point, e.span⟩

namespace Expr

/-- A part passes the check at every point, or fails it at every one. -/
theorem checked_movedTo (x y value : Float) (span : Span) :
    checked y value span = (checked x value span).mapError (EvalError.movedTo y) := by
  unfold checked
  split <;> rfl

/-- Where the variable does not occur, evaluation does the same at every point, apart from telling
the point. -/
theorem evaluate_eq_of_not_hasVariable {e : Expr Float} (h : e.hasVariable = false) (x y : Float) :
    e.evaluate y = (e.evaluate x).mapError (EvalError.movedTo y) := by
  induction e with
  | number value span => exact checked_movedTo x y value span
  | var span => cases h
  | constant name span => exact checked_movedTo x y name.value span
  | binary operator left right span ihl ihr =>
    obtain ⟨hleft, hright⟩ := Bool.or_eq_false_iff.mp h
    rw [evaluate, evaluate, ihl hleft, ihr hright]
    cases left.evaluate x with
    | error error => rfl
    | ok l =>
      cases right.evaluate x with
      | error error => rfl
      | ok r =>
        simp only [Except.mapError, bind, Except.bind]
        split
        · rfl
        · exact checked_movedTo x y _ span
  | negation operand span ih =>
    rw [evaluate, evaluate, ih h]
    cases operand.evaluate x with
    | error error => rfl
    | ok v => exact checked_movedTo x y (-v) span
  | call function argument span ih =>
    rw [evaluate, evaluate, ih h]
    cases argument.evaluate x with
    | error error => rfl
    | ok v =>
      simp only [Except.mapError, bind, Except.bind]
      split <;> rfl

end Expr

/-! ### Tokens of the variable -/

/-- A lexeme other than the end of the source is one of the tokens just when it is in their body. -/
theorem Token.exists_mem_iff_mem_body {source : List Char} {tokens : List Token}
    (h : ofText source = .ok tokens) {l : Lexeme} (hl : l ≠ .finish) :
    (∃ token ∈ tokens, token.lexeme = l) ↔ l ∈ body tokens := by
  obtain ⟨front, finish, rfl, hfinish, hbody⟩ := exists_body h
  rw [hbody, lexemes, List.mem_map]
  constructor
  · rintro ⟨token, htoken, rfl⟩
    rcases List.mem_append.mp htoken with htoken | htoken
    · exact ⟨token, htoken, rfl⟩
    · rw [List.mem_singleton.mp htoken] at hl
      exact absurd hfinish hl
  · rintro ⟨token, htoken, rfl⟩
    exact ⟨token, List.mem_append_left _ htoken, rfl⟩

namespace Expression

variable {source : List Char} {e : Expression}

/-- An accepted source is no constant just when the name of the variable is one of its tokens. -/
theorem isConstant_eq_false_iff (h : ofText source = .ok e) :
    ∃ tokens, Token.ofText source = .ok tokens ∧
      (e.isConstant = false ↔ ∃ token ∈ tokens, token.lexeme = .name variableName) := by
  obtain ⟨tokens, htokens, hderives⟩ := exists_derives h
  refine ⟨tokens, htokens, ?_⟩
  rw [Token.exists_mem_iff_mem_body htokens (by simp), ← hderives.hasVariable_iff,
    Expr.hasVariable_skeleton, isConstant, Bool.not_eq_false']

/-- A constant comes to the same at every point, apart from the point that is told. -/
theorem evaluate_movedTo (h : e.isConstant = true) (x y : Float) :
    e.evaluate y = (e.evaluate x).mapError (EvalError.movedTo y) := by
  refine Expr.evaluate_eq_of_not_hasVariable ?_ x y
  rw [doubles, Expr.hasVariable_map]
  simpa [isConstant] using h

/-- An accepted source is not empty. -/
theorem source_ne_nil (h : ofText source = .ok e) : source ≠ [] := by
  rintro rfl
  obtain ⟨ls, hls, hderives⟩ := exists_scans h
  refine hderives.ne_nil ?_
  rw [hls.unique .nil]
  rfl

/-- The value of a list that is written as a constant is that of the constant at every point. -/
theorem readValue?_of_isConstant {rules : ReadingRules} {text : List Char}
    (h : ofText (rules.ungrouped (Text.trim text)) = .ok e) (hconstant : e.isConstant = true)
    (hmissing : rules.isMissingWord (Text.trim text) = false) (x : Float) :
    readValue? rules text = (e.evaluate x).toOption := by
  have hvalue : constantValue? (rules.ungrouped (Text.trim text)) = (e.evaluate x).toOption := by
    unfold constantValue?
    rw [h]
    simp only [hconstant, if_true]
    rw [evaluate_movedTo hconstant x 0]
    cases e.evaluate x <;> rfl
  have hne : Text.trim text ≠ [] := by
    intro hnil
    refine source_ne_nil h ?_
    rw [hnil, ReadingRules.ungrouped]
    split <;> rfl
  simp only [readValue?, hmissing, List.isEmpty_iff, hne, Bool.or_false, if_false]
  split
  · next v hv => rw [← hvalue, constantValue?_of_read? hv]; rfl
  · exact hvalue

/-- An accepted source is no constant just when the name of the variable is one of its tokens. A
constant has the same double at any two points, or it has none at either and is refused there for
the same part; and what a list takes from its text is the value at every point. -/
theorem isConstant_iff_and_uniform (h : ofText source = .ok e) :
    (∃ tokens, Token.ofText source = .ok tokens ∧
      (e.isConstant = false ↔ ∃ token ∈ tokens, token.lexeme = .name "x")) ∧
    (e.isConstant = true → ∀ x y : Float,
      (∃ v, e.evaluate x = .ok v ∧ e.evaluate y = .ok v) ∨
      ∃ a b, e.evaluate x = .error a ∧ e.evaluate y = .error b ∧ a.span = b.span ∧
        evaluateText source x = .error (.valueless a) ∧
        evaluateText source y = .error (.valueless b)) ∧
    (e.isConstant = true → ∀ (rules : ReadingRules) (text : List Char),
      rules.isMissingWord (Text.trim text) = false → rules.ungrouped (Text.trim text) = source →
        ∀ x : Float, readValue? rules text = (e.evaluate x).toOption) := by
  refine ⟨isConstant_eq_false_iff h, fun hconstant x y => ?_, fun hconstant rules text hmissing
    htext x => readValue?_of_isConstant (by rwa [htext]) hconstant hmissing x⟩
  have hmoved := evaluate_movedTo hconstant x y
  cases hx : e.evaluate x with
  | ok v => exact Or.inl ⟨v, rfl, by rw [hmoved, hx]; rfl⟩
  | error a =>
    rw [hx] at hmoved
    refine Or.inr ⟨a, a.movedTo y, rfl, hmoved, rfl, ?_, ?_⟩
    · simp only [evaluateText, h, hx]
    · simp only [evaluateText, h, hmoved]
      rfl

/-- The quotient `2/(3-1)` is one at every point, and so is the value that a list takes from it. -/
theorem isConstant_iff_and_uniform_quotient :
    ∃ e : Expression, ofText "2/(3-1)".toList = .ok e ∧ e.isConstant = true ∧
      ∀ x : Float, (e.evaluate x).toOption = some 1 ∧
        readValue? .standard " 2/(3-1)".toList = some 1 := by
  have hvalue : (ofText "2/(3-1)".toList).toOption.map
      (fun e => (e.isConstant, (e.evaluate 0).toOption)) = some (true, some 1) := by decide +kernel
  cases he : ofText "2/(3-1)".toList with
  | error error => rw [he] at hvalue; cases hvalue
  | ok e =>
    rw [he] at hvalue
    obtain ⟨hconstant, hzero⟩ := Prod.mk.inj (Option.some.inj hvalue)
    obtain ⟨-, huniform, hvalues⟩ := isConstant_iff_and_uniform he
    refine ⟨e, rfl, hconstant, fun x => ?_⟩
    have hx : (e.evaluate x).toOption = some 1 := by
      rw [← hzero]
      rcases huniform hconstant x 0 with ⟨v, hx, h0⟩ | ⟨a, b, hx, h0, -⟩
      · rw [hx, h0]
      · rw [hx, h0]
        rfl
    refine ⟨hx, ?_⟩
    rw [hvalues hconstant .standard " 2/(3-1)".toList (by decide +kernel) (by decide +kernel) x, hx]

end Expression

end CurvePlot
