import CurvePlot.Proofs.Formula.BlankPlacement
import CurvePlot.Proofs.Formula.CollectedTerms
import CurvePlot.Proofs.Formula.RealMeaning
import CurvePlot.Proofs.Number.SwappedOperands

/-!
# Equations are solved for `y`

Over the real numbers an equation of two sums of terms is solved unless both sides have the same
multiple of `y`, and the points on the solution are the points at which the two sides are equal
(`Terms.solveEquation_real`). Over the doubles the two sides may be swapped: the same curve is read,
or both equations are refused for the same kind of reason (`ReadingRules.read_swapped`).
-/

namespace CurvePlot

/-! ### Points on an equation -/

/-- The value of a symbol at a point. -/
def Monomial.valueOn (x y : ℝ) : Monomial → ℝ
  | square => x ^ 2
  | .x => x
  | .y => y
  | one => 1

/-- The value of a term at a point. -/
noncomputable def Term.valueOn (x y : ℝ) (t : Term) : ℝ :=
  t.factor.value * t.monomial.valueOn x y

/-- The value of a polynomial at `x`. -/
def Quadratic.valueAt (q : Quadratic ℝ) (x : ℝ) : ℝ :=
  q.a * x ^ 2 + q.b * x + q.c

namespace Terms

/-- The value of sums of factors at a point. -/
def valueOn (x y : ℝ) (sums : Terms ℝ) : ℝ :=
  sums.square * x ^ 2 + sums.x * x + sums.y * y + sums.constant

/-- One more term adds its value. -/
theorem valueOn_add (x y : ℝ) (start : Terms ℝ) (t : Term) :
    (start.add t).valueOn x y = start.valueOn x y + t.valueOn x y := by
  rw [add, Term.valueOn]
  cases t.monomial <;> simp only [valueOn, Monomial.valueOn] <;> ring

/-- The terms together have the value of the sums of their factors. -/
theorem valueOn_sums (x y : ℝ) (ts : List Term) :
    (sums ts : Terms ℝ).valueOn x y = (ts.map (Term.valueOn x y)).sum := by
  have hfold : ∀ start : Terms ℝ, (ts.foldl add start).valueOn x y =
      start.valueOn x y + (ts.map (Term.valueOn x y)).sum := by
    induction ts with
    | nil => simp
    | cons t ts ih =>
      intro start
      rw [List.foldl_cons, ih, valueOn_add, List.map_cons, List.sum_cons, add_assoc]
  have hzero : (zero : Terms ℝ).valueOn x y = 0 := by
    simp [zero, valueOn, Scalar.zero, Scalar.ofNumeral, Numeral.value]
  have hsums : ts.foldl add zero = (sums ts : Terms ℝ) := foldl_add ts zero
  rw [← hsums, hfold, hzero, zero_add]

/-- The solution goes through the points at which the two sums have the same value. -/
theorem valueAt_solve_minus {left right : Terms ℝ} (hy : left.y - right.y ≠ 0) (x y : ℝ) :
    left.valueOn x y = right.valueOn x y ↔ y = (minus left right).solve.valueAt x := by
  have hzero : (Scalar.zero : ℝ) = 0 := by simp [Scalar.zero, Scalar.ofNumeral, Numeral.value]
  simp only [valueOn, solve, minus, Quadratic.valueAt, hzero, add_zero]
  constructor
  · intro h
    field_simp
    linarith
  · intro h
    field_simp at h
    linarith

/-- Over the real numbers an equation of two sums of terms is refused just when both sides have the
same multiple of `y`, and its solution goes through the points at which the two sides are equal. -/
theorem solveEquation_real {left right : List Char} {ls rs : List Term}
    (hleft : read left = .ok ls) (hright : read right = .ok rs) :
    ((∃ e, solveEquation (α := ℝ) left right = .error e) ↔
      (sums ls : Terms ℝ).y - (sums rs : Terms ℝ).y = 0) ∧
    ∀ q, solveEquation (α := ℝ) left right = .ok q → ∀ x y,
      (ls.map (Term.valueOn x y)).sum = (rs.map (Term.valueOn x y)).sum ↔ y = q.valueAt x := by
  have hzero : (Scalar.zero : ℝ) = 0 := by simp [Scalar.zero, Scalar.ofNumeral, Numeral.value]
  have hsolve : solveEquation (α := ℝ) left right =
      if (sums ls : Terms ℝ).y - (sums rs : Terms ℝ).y = 0 then .error .noY
      else .ok (minus (sums ls) (sums rs)).solve := by
    simp only [solveEquation, collect_of_read hleft, collect_of_read hright, hzero, minus,
      beq_iff_eq]
  rw [hsolve]
  split
  · next hy => exact ⟨by simp [hy], by simp⟩
  · next hy =>
    refine ⟨by simp [hy], ?_⟩
    rintro q ⟨⟩ x y
    rw [← valueOn_sums, ← valueOn_sums]
    exact valueAt_solve_minus hy x y

/-! ### Swapped sides over the doubles -/

/-- The quotient that solves for `y` is the same after the operands of both differences are
swapped. -/
theorem quotient_swap {a b c d : Float} (hy : (c - d == 0) = false) :
    -(b - a) / (d - c) + 0 = -(a - b) / (c - d) + 0 := by
  have hdivisor : d - c = -(c - d) := by
    rcases Double.sub_swap c d with h | ⟨h, -⟩
    · exact h
    · rw [h] at hy
      cases hy
  rw [hdivisor]
  rcases Double.sub_swap a b with h | ⟨h, h'⟩
  · rw [h, Double.opposite_opposite_div]
  · rw [h, h', Double.zero_div_opposite_add_zero]

/-- Whether two sums have the same multiple of `y` does not depend on their order. -/
theorem beq_zero_swap (c d : Float) : (d - c == 0) = (c - d == 0) := by
  rcases Double.sub_swap c d with h | ⟨h, h'⟩
  · rw [h, Double.beq_zero_opposite]
  · rw [h, h']

/-- Over the doubles an equation with its sides swapped has the same solution or is refused, too. -/
theorem solveEquation_swap (left right : List Char) :
    (∃ q, solveEquation (α := Float) left right = .ok q ∧
      solveEquation (α := Float) right left = .ok q) ∨
    ∃ e e', solveEquation (α := Float) left right = .error e ∧
      solveEquation (α := Float) right left = .error e' := by
  unfold solveEquation
  cases collect (α := Float) left with
  | error e =>
    cases collect (α := Float) right with
    | error e' => exact Or.inr ⟨_, _, rfl, rfl⟩
    | ok r => exact Or.inr ⟨_, _, rfl, rfl⟩
  | ok l =>
    cases collect (α := Float) right with
    | error e' => exact Or.inr ⟨_, _, rfl, rfl⟩
    | ok r =>
      simp only [minus, solve, WrittenCurve.scalar_zero, beq_zero_swap l.y r.y]
      cases hy : l.y - r.y == 0 with
      | true => exact Or.inr ⟨_, _, rfl, rfl⟩
      | false =>
        refine Or.inl ⟨_, rfl, ?_⟩
        simp only [Bool.false_eq_true, if_false, quotient_swap hy]

end Terms

/-- Other than two sides are no equation. -/
theorem readEquation_of_length {equation : List Char}
    (h : 2 < (Text.pieces '=' equation).length) :
    readEquation (α := Float) equation = .error .equalsSigns := by
  unfold readEquation
  split
  · next hpieces =>
    rw [hpieces] at h
    exact absurd h (by simp)
  · rfl

/-- An equation with its sides swapped is read as the same parabola, or its body is malformed,
too. -/
theorem readEquation_swap (left right : List Char) :
    (∃ q : Quadratic Float, readEquation (left ++ '=' :: right) = .ok (.quadratic q.a q.b q.c) ∧
      readEquation (right ++ '=' :: left) = .ok (.quadratic q.a q.b q.c)) ∨
    ∃ fault fault', readEquation (α := Float) (left ++ '=' :: right) = .error fault ∧
      readEquation (α := Float) (right ++ '=' :: left) = .error fault' ∧
      fault.kind = .malformedBody ∧ fault'.kind = .malformedBody := by
  by_cases hequals : '=' ∈ left ∨ '=' ∈ right
  · -- With a further equals sign there are more than two pieces in both orders.
    have hpieces : 2 < (Text.pieces '=' left).length + (Text.pieces '=' right).length := by
      have hleft := List.length_pos_of_ne_nil (Text.pieces_ne_nil '=' left)
      have hright := List.length_pos_of_ne_nil (Text.pieces_ne_nil '=' right)
      rcases hequals with h | h
      · have := Text.two_le_length_pieces h
        omega
      · have := Text.two_le_length_pieces h
        omega
    have hfirst : 2 < (Text.pieces '=' (left ++ '=' :: right)).length := by
      rwa [Text.pieces_append, List.length_append]
    have hsecond : 2 < (Text.pieces '=' (right ++ '=' :: left)).length := by
      rwa [Text.pieces_append, List.length_append, Nat.add_comm]
    exact Or.inr ⟨_, _, readEquation_of_length hfirst, readEquation_of_length hsecond, rfl, rfl⟩
  · rw [not_or] at hequals
    have hfirst : Text.pieces '=' (left ++ '=' :: right) = [left, right] := by
      rw [Text.pieces_append_cons hequals.1, Text.pieces_of_not_mem hequals.2]
    have hsecond : Text.pieces '=' (right ++ '=' :: left) = [right, left] := by
      rw [Text.pieces_append_cons hequals.2, Text.pieces_of_not_mem hequals.1]
    simp only [readEquation, hfirst, hsecond]
    rcases Terms.solveEquation_swap left right with ⟨q, hq, hq'⟩ | ⟨e, e', he, he'⟩
    · exact Or.inl ⟨q, by rw [hq], by rw [hq']⟩
    · exact Or.inr ⟨.equation e, .equation e', by rw [he], by rw [he'], rfl, rfl⟩

/-! ### Formulas -/

/-- The optional range behind a formula. -/
def rangeText : Option (List Char) → List Char
  | some range => ':' :: range
  | none => []

/-- An equation as a formula, with an optional range behind it. -/
def equationText (left right : List Char) (range : Option (List Char)) : List Char :=
  left ++ '=' :: right ++ rangeText range

/-- Whether a text, without its blanks, begins with `y=` in either case. -/
def BeginsExplicit (text : List Char) : Prop :=
  Text.lower ((Text.compact text).take 2) = ['y', '=']

/-- The range is cut off at its colon. -/
theorem Text.cut_append_rangeText {front : List Char} (h : ':' ∉ front)
    (range : Option (List Char)) : cut ':' (front ++ rangeText range) = (front, range) := by
  cases range with
  | none => rw [rangeText, List.append_nil, cut_of_not_mem h]
  | some behind => exact cut_append_cons h

namespace Shape

variable {left right : List Char} {range : Option (List Char)}

/-- Without its blanks an equation that does not begin with `y=` is one of the implicit grammar. -/
theorem ofCompact_equationText (hcolon : ':' ∉ left ++ '=' :: right)
    (hexplicit : ¬BeginsExplicit (left ++ '=' :: right)) :
    ofCompact (Text.compact (equationText left right range)) =
      .implicit (Text.compact left ++ '=' :: Text.compact right) (range.map Text.compact) := by
  have hbody : Text.compact (left ++ '=' :: right) =
      Text.compact left ++ '=' :: Text.compact right := by
    have hequals : Text.isBlank '=' = false := by decide
    simp [Text.compact, hequals]
  have hcut : Text.cut ':' (Text.compact (equationText left right range)) =
      (Text.compact (left ++ '=' :: right), range.map Text.compact) := by
    rw [Text.cut_compact (by decide), equationText, Text.cut_append_rangeText hcolon]
  have hmem : (Text.compact (left ++ '=' :: right)).contains '=' = true := by simp [hbody]
  have hfirst : (Text.lower ((Text.compact (left ++ '=' :: right)).take 2) == ['y', '=']) =
      false := by
    rw [beq_eq_false_iff_ne]
    exact hexplicit
  rw [ofCompact, hcut]
  simp only [hfirst, hmem, Bool.false_eq_true, if_false, if_true]
  rw [hbody]

/-- An equation that does not begin with `y=` is one of the implicit grammar. -/
theorem ofFormula_equationText (hcolon : ':' ∉ left ++ '=' :: right)
    (hexplicit : ¬BeginsExplicit (left ++ '=' :: right)) :
    ofFormula (equationText left right range) =
      .implicit (Text.compact left ++ '=' :: Text.compact right) (range.map Text.compact) := by
  have hequals : '=' ∈ (Text.cut ':' (equationText left right range)).1 := by
    rw [equationText, Text.cut_append_rangeText hcolon]
    simp
  rw [ofFormula_of_equals_mem hequals, ofCompact_equationText hcolon hexplicit]

end Shape

/-- A formula of the implicit grammar with its sides swapped is read as the same curve over the same
domain, or refused for the same kind of reason. NaN is a single double, so equal curves have it in
the same places. -/
theorem ReadingRules.read_swapped (rules : ReadingRules) {left right : List Char}
    (range : Option (List Char)) (hcolon : ':' ∉ left ++ '=' :: right)
    (hexplicit : ¬BeginsExplicit (left ++ '=' :: right))
    (hswapped : ¬BeginsExplicit (right ++ '=' :: left)) :
    (∃ p q, rules.read (String.ofList (equationText left right range)) = .ok p ∧
      rules.read (String.ofList (equationText right left range)) = .ok q ∧
      p.curve = q.curve ∧ p.domain = q.domain) ∨
    ∃ e e', rules.read (String.ofList (equationText left right range)) = .error e ∧
      rules.read (String.ofList (equationText right left range)) = .error e' ∧
      e.fault.kind = e'.fault.kind := by
  have hcolon' : ':' ∉ right ++ '=' :: left := by
    simp only [List.mem_append, List.mem_cons, not_or] at hcolon ⊢
    exact ⟨hcolon.2.2, hcolon.2.1, hcolon.1⟩
  have hshape : Shape.ofFormula (equationText left right range) =
      .implicit (Text.compact left ++ '=' :: Text.compact right) (range.map Text.compact) :=
    Shape.ofFormula_equationText hcolon hexplicit
  have hshape' : Shape.ofFormula (equationText right left range) =
      .implicit (Text.compact right ++ '=' :: Text.compact left) (range.map Text.compact) :=
    Shape.ofFormula_equationText hcolon' hswapped
  simp only [read, String.toList_ofList, hshape, hshape', readShape]
  rcases readEquation_swap (Text.compact left) (Text.compact right) with
    ⟨q, hq, hq'⟩ | ⟨fault, fault', hfault, hfault', hkind, hkind'⟩
  · rw [hq, hq']
    exact Or.inl ⟨_, _, rfl, rfl, rfl, rfl⟩
  · rw [hfault, hfault']
    exact Or.inr ⟨_, _, rfl, rfl, hkind.trans hkind'.symm⟩

/-- Over the real numbers the equation of two sums of terms is refused just when both sides have the
same multiple of `y`, and its solution goes through the points at which the two sides are equal.
Over the doubles a formula of the implicit grammar with its sides swapped is read as the same curve
over the same domain, or refused for the same kind of reason. -/
theorem solveEquation_real_and_read_swapped :
    (∀ (left right : List Char) (ls rs : List Term),
      Terms.read left = .ok ls → Terms.read right = .ok rs →
      ((∃ e, Terms.solveEquation (α := ℝ) left right = .error e) ↔
        (Terms.sums ls : Terms ℝ).y - (Terms.sums rs : Terms ℝ).y = 0) ∧
      ∀ q, Terms.solveEquation (α := ℝ) left right = .ok q → ∀ x y,
        (ls.map (Term.valueOn x y)).sum = (rs.map (Term.valueOn x y)).sum ↔ y = q.valueAt x) ∧
    ∀ (rules : ReadingRules) (left right : List Char) (range : Option (List Char)),
      ':' ∉ left ++ '=' :: right → ¬BeginsExplicit (left ++ '=' :: right) →
      ¬BeginsExplicit (right ++ '=' :: left) →
      (∃ p q, rules.read (String.ofList (equationText left right range)) = .ok p ∧
        rules.read (String.ofList (equationText right left range)) = .ok q ∧
        p.curve = q.curve ∧ p.domain = q.domain) ∨
      ∃ e e', rules.read (String.ofList (equationText left right range)) = .error e ∧
        rules.read (String.ofList (equationText right left range)) = .error e' ∧
        e.fault.kind = e'.fault.kind :=
  ⟨fun _ _ _ _ hleft hright => Terms.solveEquation_real hleft hright,
    fun rules _ _ range hcolon hexplicit hswapped =>
      rules.read_swapped range hcolon hexplicit hswapped⟩

/-- A parabola by an equation, with the sides in either order. -/
theorem solveEquation_real_and_read_swapped_parabola :
    (∃ q, Terms.solveEquation (α := ℝ) ['x', '^', '2', '-', 'y'] ['3'] = .ok q ∧
      ∀ x y, x ^ 2 - y = 3 ↔ y = q.valueAt x) ∧
    ∃ p q, ReadingRules.standard.read "x^2-y=3:0,5,1" = .ok p ∧
      ReadingRules.standard.read "3=x^2-y:0,5,1" = .ok q ∧ p.curve = q.curve ∧
      p.domain = q.domain := by
  obtain ⟨hreal, hswapped⟩ := solveEquation_real_and_read_swapped
  constructor
  · have hleft : Terms.read ['x', '^', '2', '-', 'y'] =
        .ok [⟨⟨none, none, false⟩, .square⟩, ⟨⟨some '-', none, false⟩, .y⟩] := by
      rw [Terms.read, Signs.normalize, Signs.collapse_eq_joined]
      rfl
    have hright : Terms.read ['3'] = .ok [⟨⟨none, some ⟨['3'], none, none⟩, false⟩, .one⟩] := by
      rw [Terms.read, Signs.normalize, Signs.collapse_eq_joined]
      rfl
    obtain ⟨hrefused, hsolved⟩ := hreal _ _ _ _ hleft hright
    have hplain : Literal.isPlain ⟨['3'], none, none⟩ = true := by decide
    have hnumeral : Literal.numeral ⟨['3'], none, none⟩ = ⟨3, 0⟩ := by decide
    cases hq : Terms.solveEquation (α := ℝ) ['x', '^', '2', '-', 'y'] ['3'] with
    | error e =>
      have hy := hrefused.mp ⟨e, hq⟩
      simp [Terms.sums, Terms.sumUp, Terms.summands, Factor.value, Factor.signed, Factor.magnitude,
        Scalar.zero, Scalar.one, Scalar.ofNumeral, Numeral.value] at hy
    | ok q =>
      refine ⟨q, rfl, fun x y => ?_⟩
      have hpoint := hsolved q hq x y
      simpa [Term.valueOn, Monomial.valueOn, Factor.value, Factor.signed, Factor.magnitude, hplain,
        hnumeral, Scalar.one, Scalar.ofNumeral, Numeral.value, ← sub_eq_add_neg] using hpoint
  · have hread : (ReadingRules.standard.read "x^2-y=3:0,5,1").toOption.map Plot.family =
        some .quadratic := by decide +kernel
    have hexplicit : ¬BeginsExplicit ['x', '^', '2', '-', 'y', '=', '3'] ∧
        ¬BeginsExplicit ['3', '=', 'x', '^', '2', '-', 'y'] := by
      unfold BeginsExplicit
      decide +kernel
    rcases hswapped ReadingRules.standard ['x', '^', '2', '-', 'y'] ['3']
      (some ['0', ',', '5', ',', '1']) (by decide) hexplicit.1 hexplicit.2 with
      ⟨p, q, hp, hq, hsame⟩ | ⟨e, -, he, -⟩
    · exact ⟨p, q, hp, hq, hsame⟩
    · have hrefused : ReadingRules.standard.read "x^2-y=3:0,5,1" = .error e := he
      rw [hrefused] at hread
      cases hread

end CurvePlot
