import CurvePlot.Proofs.Formula.KeyedExplicit
import CurvePlot.Proofs.Formula.PolynomialMeaning
import CurvePlot.Proofs.Number.ZeroOperands

/-!
# The explicit grammar agrees with the solver

The reader of right sides solves the equation `y=…` only if it has to: a sum without `y`, or one
whose terms in `y` cancel, is taken as it stands, and a sum without the text of a square is taken as
a straight line. Each of these ways comes to what solving the equation comes to
(`readPolynomial_agrees`), and no other reader claims a sum of terms, because it holds neither a
power of `e` nor a logarithm (`readExplicit_of_sum`). So a formula behind `y=` is read just if its
equation has a solution, and as this solution (`ReadingRules.read_explicit_agrees`).
-/

namespace CurvePlot

/-! ### Sums of terms are left to their reader -/

/-- In front of a term, as in a term, only `x` is raised to powers. -/
theorem Term.isChain_append_text {t : Term} (ht : t.WellFormed) {front : List Char}
    (h : front.IsChain fun c d => d = '^' → c = 'x') :
    (front ++ t.text).IsChain fun c d => d = '^' → c = 'x' := by
  have hfactor : '^' ∉ t.factor.text := by
    intro hmem
    rcases Factor.mem_text ht.factor ht.factor.literal hmem with h | h <;>
      exact absurd h (by decide)
  have hsymbol : t.monomial.symbol.IsChain fun c d => d = '^' → c = 'x' := by
    cases t.monomial <;> simp [Monomial.symbol]
  have hhead : ∀ d ∈ t.monomial.symbol.head?, d ≠ '^' := by
    cases t.monomial <;> simp [Monomial.symbol]
  rw [Term.text, ← List.append_assoc]
  refine (h.append (isChain_of_not_mem_power hfactor) fun c _ d hd hpower => ?_).append hsymbol
    fun c _ d hd hpower => absurd hpower (hhead d hd)
  exact absurd (hpower ▸ List.mem_of_mem_head? hd) hfactor

namespace Terms

variable {right : List Char} {ts : List Term}

/-- In a sum of terms only `x` is raised to powers. -/
theorem isChain_texts (hts : ∀ t ∈ ts, t.WellFormed) :
    (ts.flatMap Term.text).IsChain fun c d => d = '^' → c = 'x' := by
  have hbehind : ∀ front : List Char, (front.IsChain fun c d => d = '^' → c = 'x') →
      (front ++ ts.flatMap Term.text).IsChain fun c d => d = '^' → c = 'x' := by
    induction ts with
    | nil => simp
    | cons t ts ih =>
      intro front hfront
      rw [List.flatMap_cons, ← List.append_assoc]
      exact ih (fun u hu => hts u (by simp [hu])) _ (Term.isChain_append_text (hts t (by simp)) hfront)
  exact hbehind [] .nil

/-- A sum of terms holds no other characters than its terms. -/
theorem not_mem_of_read (hnormal : Signs.normalize right = right) (h : read right = .ok ts)
    {c : Char} (hdigit : Text.isDecimalDigit c = false)
    (hc : c ∉ ['.', 'e', 'E', '+', '-', '*', 'x', '^', '2', 'y']) : c ∉ right := by
  obtain ⟨-, -, -, htext, hwell, -⟩ := exists_of_read hnormal h
  rw [← htext]
  intro hmem
  obtain ⟨t, ht, hct⟩ := List.mem_flatMap.mp hmem
  rcases Term.mem_text (hwell t ht) (hwell t ht).factor.literal hct with h | h
  · rw [hdigit] at h
    cases h
  · exact hc h

/-- Joining signs once more changes nothing for the terms of a text. -/
theorem read_normalize (right : List Char) : read (Signs.normalize right) = read right := by
  rw [read, read, Signs.normalize_normalize]

/-- Nor for their sums. -/
theorem collect_normalize {α : Type} [Scalar α] (right : List Char) :
    collect (α := α) (Signs.normalize right) = collect right := by
  rw [collect, collect, read_normalize]

end Terms

/-- A sum of terms holds neither a power of `e` nor a logarithm. -/
theorem readExplicit_of_sum (rules : ReadingRules) {right : List Char} {ts : List Term}
    (hnormal : Signs.normalize right = right) (h : Terms.read right = .ok ts) :
    readExplicit rules right =
      match readPolynomial right with
      | .ok (some curve) => .ok curve
      | .ok none => readExpression right
      | .error e => .error e := by
  have hexponential : Text.contains exponentialMark (Text.lower right) = false := by
    obtain ⟨-, -, -, htext, hwell, -⟩ := Terms.exists_of_read hnormal h
    rw [← htext]
    exact not_contains_exponentialMark (Terms.isChain_texts hwell)
  have hlogarithm : Text.contains logarithmMark (Text.lower right) = false :=
    not_contains_logarithmMark (Terms.not_mem_of_read hnormal h (by decide) (by decide))
  rw [readExplicit, hexponential, hlogarithm]
  rfl

/-! ### The two solutions -/

/-- The polynomial of a straight line or a parabola. -/
def Curve.quadratic? {α : Type} [Scalar α] : Curve α → Option (Quadratic α)
  | .quadratic a b c => some ⟨a, b, c⟩
  | .linear m b => some ⟨Scalar.zero, m, b⟩
  | _ => none

/-- A straight line has no square. -/
theorem Curve.quadratic?_linear (m b : Float) :
    (Curve.linear m b).quadratic? = some ⟨0, m, b⟩ := by
  rw [quadratic?, WrittenCurve.scalar_zero]

/-- Whether two polynomials have the same factors in number, or NaN in the same places. -/
def Quadratic.Agree (p q : Quadratic Float) : Prop :=
  Double.Agree p.a q.a ∧ Double.Agree p.b q.b ∧ Double.Agree p.c q.c

/-- Every polynomial agrees with itself. -/
theorem Quadratic.Agree.refl (q : Quadratic Float) : q.Agree q :=
  ⟨Double.Agree.refl _, Double.Agree.refl _, Double.Agree.refl _⟩

namespace Terms

variable {right : List Char} {sums : Terms Float}

/-- The solution of the equation with `y` on its left side. -/
def solveForY (sums : Terms Float) : Quadratic Float :=
  (minus ⟨0, 0, 1, 0⟩ sums).solve

/-- The equation has a solution unless the right side has just one `y`. -/
theorem solveEquation_y (h : collect right = .ok sums) :
    solveEquation ['y'] right =
      if (1 - sums.y == 0) = true then .error .noY else .ok sums.solveForY := by
  have hread : read ['y'] = .ok [⟨⟨none, none, false⟩, .y⟩] := by
    rw [read, Signs.normalize, Signs.collapse_eq_joined]
    rfl
  have hsum : (zero : Terms Float).add ⟨⟨none, none, false⟩, .y⟩ = ⟨0, 0, 1, 0⟩ := rfl
  have hleft : collect ['y'] = .ok (⟨0, 0, 1, 0⟩ : Terms Float) := by
    rw [collect, hread, Except.map, List.foldl_cons, hsum]
    rfl
  simp only [solveEquation, hleft, h, minus, WrittenCurve.scalar_zero, solveForY]

/-- Without `y` on the right side, or with terms in `y` that cancel, the solution is the right side
as it stands. -/
theorem agree_solveForY_of_y (hy : (sums.y == 0) = true) :
    Quadratic.Agree ⟨sums.square, sums.x, sums.constant⟩ sums.solveForY := by
  simp only [solveForY, minus, solve, WrittenCurve.scalar_zero, Double.one_sub_of_beq_zero hy]
  exact ⟨Double.agree_neg_sub_div_one _, Double.agree_neg_sub_div_one _,
    Double.agree_neg_sub_div_one _⟩

/-- Without squares on the right side the solution has none. -/
theorem agree_solveForY_of_square (hsquare : sums.square = 0) (hnan : sums.y.isNaN = false)
    (hy : (1 - sums.y == 0) = false) :
    Quadratic.Agree ⟨0, sums.solveForY.b, sums.solveForY.c⟩ sums.solveForY := by
  have hzero : (0 : Float) - 0 = 0 := rfl
  have ha : sums.solveForY.a = 0 := by
    simp only [solveForY, minus, solve, WrittenCurve.scalar_zero, hsquare, hzero]
    exact Double.neg_zero_div_add_zero (Double.isNaN_one_sub hnan) hy
  refine ⟨?_, Double.Agree.refl _, Double.Agree.refl _⟩
  rw [ha]
  exact Double.Agree.refl 0

end Terms

/-! ### The ways of the reader -/

/-- Whether the reader of sums comes to the solution of the equation with `y` on its left side, or
refuses the text because it has none. -/
def AgreesWithSolver (right : List Char) : Prop :=
  (∃ curve p q, readPolynomial right = .ok (some curve) ∧ curve.quadratic? = some p ∧
    Terms.solveEquation ['y'] right = .ok q ∧ p.Agree q) ∨
  readPolynomial (α := Float) right = .error (.equation .noY) ∧
    Terms.solveEquation (α := Float) ['y'] right = .error .noY

section Ways

variable {right : List Char} {sums : Terms Float} {curve : Curve Float}

/-- Sums without `y` may be taken as they stand. -/
theorem AgreesWithSolver.of_collected (hcollect : Terms.collect right = .ok sums)
    (hy : (sums.y == 0) = true) (hread : readPolynomial right = .ok (some curve))
    (hcurve : curve.quadratic? = some ⟨sums.square, sums.x, sums.constant⟩) :
    AgreesWithSolver right := by
  have hsolve : Terms.solveEquation ['y'] right = .ok sums.solveForY := by
    rw [Terms.solveEquation_y hcollect, Double.one_sub_of_beq_zero hy]
    rfl
  exact Or.inl ⟨curve, _, _, hread, hcurve, hsolve, Terms.agree_solveForY_of_y hy⟩

/-- The solver may be asked for a curve that agrees with its solution. -/
theorem AgreesWithSolver.of_solved (hcollect : Terms.collect right = .ok sums)
    (ofSolution : Quadratic Float → Curve Float)
    (hread : ∀ q, Terms.solveEquation (α := Float) ['y'] right = .ok q →
      readPolynomial right = .ok (some (ofSolution q)))
    (hrefused : ∀ e, Terms.solveEquation (α := Float) ['y'] right = .error e →
      readPolynomial (α := Float) right = .error (.equation e))
    (hcurve : (1 - sums.y == 0) = false →
      ∃ p, (ofSolution sums.solveForY).quadratic? = some p ∧ p.Agree sums.solveForY) :
    AgreesWithSolver right := by
  have hsolve := Terms.solveEquation_y hcollect
  cases hy : 1 - sums.y == 0 with
  | true =>
    rw [if_pos hy] at hsolve
    exact Or.inr ⟨hrefused _ hsolve, hsolve⟩
  | false =>
    rw [if_neg (by rw [hy]; exact Bool.false_ne_true)] at hsolve
    obtain ⟨p, hp, hagree⟩ := hcurve hy
    exact Or.inl ⟨_, p, _, hread _ hsolve, hp, hsolve, hagree⟩

/-- A sum of terms is read as a straight line or a parabola that agrees with the solution of its
equation, or both are refused because `y` drops out. -/
theorem readPolynomial_agrees (hnormal : Signs.normalize right = right)
    (hcollect : Terms.collect right = .ok sums) (hnan : sums.y.isNaN = false) :
    AgreesWithSolver right := by
  obtain ⟨ts, hread, hsums⟩ := Terms.exists_of_collect hcollect
  obtain ⟨-, -, -, htext, -, -⟩ := Terms.exists_of_read hnormal hread
  have hzero : ((0 : Float) == 0) = true := rfl
  have hsymbol : Monomial.y.symbol = ['y'] := rfl
  cases hsquare : Text.contains Monomial.square.symbol right with
  | false =>
    have hnone : sums.square = 0 := by
      rw [← hsums, Terms.square_foldl_add _ (Terms.monomial_ne_square htext hsquare)]
      exact WrittenCurve.scalar_zero
    cases hy : sums.y == 0 with
    | true =>
      have hline : readPolynomial right = .ok (some (.linear sums.x sums.constant)) := by
        simp only [readPolynomial, hsquare, hcollect, hnone, hy, hzero, WrittenCurve.scalar_zero,
          Bool.not_false, if_true]
      exact .of_collected hcollect hy hline (by rw [Curve.quadratic?_linear, hnone])
    | false =>
      refine .of_solved hcollect (fun q => .linear q.b q.c) (fun q hq => ?_) (fun e he => ?_)
        fun hdrop => ⟨_, Curve.quadratic?_linear _ _,
          Terms.agree_solveForY_of_square hnone hnan hdrop⟩
      · simp only [readPolynomial, hsquare, hcollect, hnone, hy, hzero, WrittenCurve.scalar_zero,
          Bool.not_false, if_true, Bool.false_eq_true, if_false, hsymbol, hq]
      · simp only [readPolynomial, hsquare, hcollect, hnone, hy, hzero, WrittenCurve.scalar_zero,
          Bool.not_false, if_true, Bool.false_eq_true, if_false, hsymbol, he]
  | true =>
    cases hletter : right.contains 'y' with
    | true =>
      refine .of_solved hcollect (fun q => .quadratic q.a q.b q.c) (fun q hq => ?_) (fun e he => ?_)
        fun _ => ⟨_, rfl, Quadratic.Agree.refl _⟩
      · simp only [readPolynomial, hsquare, hletter, Bool.not_true, Bool.false_eq_true, if_false,
          if_true, hsymbol, hq]
      · simp only [readPolynomial, hsquare, hletter, Bool.not_true, Bool.false_eq_true, if_false,
          if_true, hsymbol, he]
    | false =>
      have hnoy : 'y' ∉ right := by simpa using hletter
      have hy : sums.y = 0 := by
        rw [← hsums, Terms.y_foldl_add _ (Terms.monomial_ne_y htext hnoy)]
        exact WrittenCurve.scalar_zero
      have hparabola : readPolynomial right =
          .ok (some (.quadratic sums.square sums.x sums.constant)) := by
        simp only [readPolynomial, hsquare, hletter, hcollect, Bool.not_true, Bool.false_eq_true,
          if_false]
      exact .of_collected hcollect (by rw [hy, hzero]) hparabola rfl

end Ways

/-- A formula behind `y=` whose right side is a sum of terms, with no NaN for the factor of `y`, is
read just if its equation has a solution. It is then a straight line or a parabola with the factors
of the solution, equal in number or NaN in the same places; else its body is malformed. -/
theorem ReadingRules.read_explicit_agrees (rules : ReadingRules) {right : List Char}
    {sums : Terms Float} (hcollect : Terms.collect right = .ok sums)
    (hnan : sums.y.isNaN = false) :
    ((∃ plot, rules.read (String.ofList ('y' :: '=' :: right)) = .ok plot) ↔
      ∃ q, Terms.solveEquation (α := Float) ['y'] right = .ok q) ∧
    (∀ plot q, rules.read (String.ofList ('y' :: '=' :: right)) = .ok plot →
      Terms.solveEquation ['y'] right = .ok q →
      ∃ p, plot.curve.quadratic? = some p ∧ p.Agree q) ∧
    ∀ e, Terms.solveEquation (α := Float) ['y'] right = .error e →
      ∃ error, rules.read (String.ofList ('y' :: '=' :: right)) = .error error ∧
        error.fault.kind = .malformedBody := by
  have hnormal := Signs.normalize_normalize right
  have hcollect' : Terms.collect (Signs.normalize right) = .ok sums := by
    rw [Terms.collect_normalize, hcollect]
  have hsame : Terms.solveEquation (α := Float) ['y'] (Signs.normalize right) =
      Terms.solveEquation ['y'] right := by
    rw [Terms.solveEquation, Terms.solveEquation, Terms.collect_normalize]
  obtain ⟨ts, hread, -⟩ := Terms.exists_of_collect hcollect'
  have hcolon : ':' ∉ right := by
    rw [← Signs.mem_normalize_iff (by decide) (by decide)]
    exact Terms.not_mem_of_read hnormal hread (by decide) (by decide)
  have hexplicit := readExplicit_of_sum rules hnormal hread
  rcases readPolynomial_agrees hnormal hcollect' hnan with
    ⟨curve, p, q, hcurve, hp, hsolve, hagree⟩ | ⟨hpolynomial, hsolve⟩
  · rw [hcurve] at hexplicit
    rw [hsame] at hsolve
    obtain ⟨plot, hplot, rfl⟩ := exists_read_of_readExplicit hcolon hexplicit
    refine ⟨⟨fun _ => ⟨q, hsolve⟩, fun _ => ⟨plot, hplot⟩⟩, fun plot' q' hplot' hsolve' => ?_,
      fun e he => ?_⟩
    · cases hplot.symm.trans hplot'
      cases hsolve.symm.trans hsolve'
      exact ⟨p, hp, hagree⟩
    · cases hsolve.symm.trans he
  · rw [hpolynomial] at hexplicit
    rw [hsame] at hsolve
    have herror : rules.read (String.ofList ('y' :: '=' :: right)) =
        .error ⟨.equation .noY, String.ofList ('y' :: '=' :: right)⟩ := by
      rw [read, String.toList_ofList, Shape.ofFormula_explicit hcolon, readShape, hexplicit]
      rfl
    refine ⟨⟨fun hplot => ?_, fun hq => ?_⟩, fun plot q hplot _ => ?_,
      fun e _ => ⟨_, herror, rfl⟩⟩
    · obtain ⟨plot, hplot⟩ := hplot
      cases herror.symm.trans hplot
    · obtain ⟨q, hq⟩ := hq
      cases hsolve.symm.trans hq
    · cases herror.symm.trans hplot

/-- The terms in `y` add up to `-y`, so the solution is half of the other terms. -/
theorem ReadingRules.read_explicit_agrees_line :
    ∃ plot p, standard.read "y=4x+y-3y+y-1" = .ok plot ∧ plot.curve.quadratic? = some p ∧
      p.Agree ⟨0, 2, -0.5⟩ := by
  have hcollect : Terms.collect ['4', 'x', '+', 'y', '-', '3', 'y', '+', 'y', '-', '1'] =
      .ok (⟨0, 4, -1, -1⟩ : Terms Float) := by
    have hread : Terms.read ['4', 'x', '+', 'y', '-', '3', 'y', '+', 'y', '-', '1'] =
        .ok [⟨⟨none, some ⟨['4'], none, none⟩, false⟩, .x⟩, ⟨⟨some '+', none, false⟩, .y⟩,
          ⟨⟨some '-', some ⟨['3'], none, none⟩, false⟩, .y⟩, ⟨⟨some '+', none, false⟩, .y⟩,
          ⟨⟨some '-', some ⟨['1'], none, none⟩, false⟩, .one⟩] := by
      rw [Terms.read, Signs.normalize, Signs.collapse_eq_joined]
      rfl
    rw [Terms.collect, hread]
    rfl
  obtain ⟨hiff, hagree, -⟩ := read_explicit_agrees standard hcollect rfl
  have hsolve := Terms.solveEquation_y hcollect
  have hdrop : ((1 : Float) - -1 == 0) = false := rfl
  rw [hdrop, if_neg Bool.false_ne_true] at hsolve
  obtain ⟨plot, hplot⟩ := hiff.mpr ⟨_, hsolve⟩
  obtain ⟨p, hp, hsame⟩ := hagree plot _ hplot hsolve
  have hsolution : Terms.solveForY ⟨0, 4, -1, -1⟩ = ⟨0, 2, -0.5⟩ := by decide +kernel
  rw [hsolution] at hsame
  exact ⟨plot, p, hplot, hp, hsame⟩

end CurvePlot
