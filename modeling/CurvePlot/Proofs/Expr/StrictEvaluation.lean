import CurvePlot.Expr.Expression
import CurvePlot.Proofs.Number.ZeroOperands

/-!
# Evaluation is strict

The plain value of a tree computes every node and never fails, while evaluation over the doubles
stops at a node that is not finite. The two are brought together by the row of all nodes, from left
to right and each behind its operands (`Expr.nodes`): evaluation returns the plain value if every
node of the row has a finite one, and else reports the first that has none
(`Expr.evaluate_eq_of_firstFault`). The three guards of evaluation come to one, because a function
is checked like any other node and a quotient by zero is never finite.
-/

namespace CurvePlot

namespace Expr

/-- All nodes, from left to right, each behind its operands. -/
def nodes {ν : Type} : Expr ν → List (Expr ν)
  | number value span => [number value span]
  | var span => [var span]
  | constant name span => [constant name span]
  | binary operator left right span =>
    left.nodes ++ (right.nodes ++ [binary operator left right span])
  | negation operand span => operand.nodes ++ [negation operand span]
  | call function argument span => argument.nodes ++ [call function argument span]

/-- The whole tree is the last node. -/
theorem self_mem_nodes {ν : Type} (e : Expr ν) : e ∈ e.nodes := by
  cases e <;> simp [nodes]

/-- What is reported of a node whose operands have finite values and that has none. -/
def fault (x : Float) : Expr Float → NonFinite
  | call function argument _ => .atArgument function (argument.value x)
  | binary operator left right span =>
    if operator == .div && right.value x == 0 then .divisionByZero
    else .result ((binary operator left right span).value x) x
  | e => .result (e.value x) x

/-- The first node of a row whose plain value is not finite. -/
def firstFault? (x : Float) (row : List (Expr Float)) : Option (Expr Float) :=
  row.find? fun n => !(n.value x).isFinite

variable {x : Float} {row : List (Expr Float)}

/-- There is none if every value is finite. -/
theorem firstFault?_eq_none_iff :
    firstFault? x row = none ↔ ∀ n ∈ row, (n.value x).isFinite = true := by
  simp [firstFault?]

/-- The nodes in front of it have finite values. -/
theorem firstFault?_eq_some_iff {n : Expr Float} :
    firstFault? x row = some n ↔ ∃ before behind, row = before ++ n :: behind ∧
      (∀ m ∈ before, (m.value x).isFinite = true) ∧ (n.value x).isFinite = false := by
  simp only [firstFault?, List.find?_eq_some_iff_append, Bool.not_eq_true', Bool.not_not]
  constructor
  · rintro ⟨hn, before, behind, hrow, hbefore⟩
    exact ⟨before, behind, hrow, hbefore, hn⟩
  · rintro ⟨before, behind, hrow, hbefore, hn⟩
    exact ⟨hn, before, behind, hrow, hbefore⟩

/-- The outcome of evaluation that the first fault of a row leaves to a value. -/
def outcome (x value : Float) : Option (Expr Float) → Except EvalError Float
  | none => .ok value
  | some n => .error ⟨n.fault x, n.span⟩

/-- A node in front of which there is no fault passes with a finite value, else it is the fault. -/
theorem outcome_singleton {e : Expr Float} (x : Float) :
    outcome x (e.value x) (firstFault? x [e]) =
      if (e.value x).isFinite then .ok (e.value x) else .error ⟨e.fault x, e.span⟩ := by
  cases h : (e.value x).isFinite <;> simp [firstFault?, outcome, h]

/-- A node is looked at behind its operands. -/
theorem outcome_append (x value : Float) (front row : List (Expr Float)) :
    outcome x value (firstFault? x (front ++ row)) =
      (outcome x value (firstFault? x front)).bind fun _ => outcome x value (firstFault? x row) := by
  simp only [firstFault?, List.find?_append]
  cases front.find? fun n => !(n.value x).isFinite <;> rfl

/-- A division by zero has no finite value. -/
theorem isFinite_value_of_divisor {operator : Operator} {left right : Expr Float} {span : Span}
    (h : (operator == .div && right.value x == 0) = true) :
    ((binary operator left right span).value x).isFinite = false := by
  obtain ⟨hdiv, hzero⟩ := Bool.and_eq_true_iff.mp h
  rw [value, beq_iff_eq.mp hdiv]
  exact Double.isFinite_div_of_beq_zero (left.value x) hzero

/-- Evaluation comes to the plain value, or to the first node whose plain value is not finite. -/
theorem evaluate_eq_outcome (x : Float) (e : Expr Float) :
    e.evaluate x = outcome x (e.value x) (firstFault? x e.nodes) := by
  induction e with
  | number _ _ | var _ | constant _ _ =>
    rw [nodes, outcome_singleton]
    rfl
  | binary operator left right span ihl ihr =>
    rw [nodes, outcome_append, outcome_append, outcome_singleton, evaluate, ihl, ihr]
    cases firstFault? x left.nodes with
    | some n => simp only [outcome, bind, Except.bind]
    | none =>
      cases firstFault? x right.nodes with
      | some n => simp only [outcome, bind, Except.bind]
      | none =>
        -- Both operands have their plain values, and the guards meet at the node itself.
        simp only [outcome, bind, Except.bind, fault]
        cases hzero : operator == .div && right.value x == 0 with
        | true => simp [isFinite_value_of_divisor hzero, Expr.span]
        | false => rfl
  | negation operand span ih =>
    rw [nodes, outcome_append, outcome_singleton, evaluate, ih]
    cases firstFault? x operand.nodes with
    | some n => simp only [outcome, bind, Except.bind]
    | none =>
      simp only [outcome, bind, Except.bind]
      rfl
  | call function argument span ih =>
    rw [nodes, outcome_append, outcome_singleton, evaluate, ih]
    cases firstFault? x argument.nodes with
    | some n => simp only [outcome, bind, Except.bind]
    | none =>
      simp only [outcome, bind, Except.bind]
      rfl

/-- Evaluation returns a value just if every node has a finite one, and then the plain value. -/
theorem evaluate_eq_ok_iff {e : Expr Float} {v : Float} :
    e.evaluate x = .ok v ↔ (∀ n ∈ e.nodes, (n.value x).isFinite = true) ∧ v = e.value x := by
  rw [evaluate_eq_outcome, ← firstFault?_eq_none_iff]
  cases firstFault? x e.nodes <;> simp [outcome, eq_comm]

/-- Else it reports the first node that has none. -/
theorem evaluate_eq_error_iff {e : Expr Float} {error : EvalError} :
    e.evaluate x = .error error ↔ ∃ before n behind, e.nodes = before ++ n :: behind ∧
      (∀ m ∈ before, (m.value x).isFinite = true) ∧ (n.value x).isFinite = false ∧
      error = ⟨n.fault x, n.span⟩ := by
  have hfirst : e.evaluate x = .error error ↔
      ∃ n, firstFault? x e.nodes = some n ∧ error = ⟨n.fault x, n.span⟩ := by
    rw [evaluate_eq_outcome]
    cases firstFault? x e.nodes <;> simp [outcome, eq_comm]
  rw [hfirst]
  constructor
  · rintro ⟨n, hn, herror⟩
    obtain ⟨before, behind, hnodes, hbefore, hfault⟩ := firstFault?_eq_some_iff.mp hn
    exact ⟨before, n, behind, hnodes, hbefore, hfault, herror⟩
  · rintro ⟨before, n, behind, hnodes, hbefore, hfault, herror⟩
    exact ⟨n, firstFault?_eq_some_iff.mpr ⟨before, behind, hnodes, hbefore, hfault⟩, herror⟩

end Expr

/-- Over the doubles an accepted expression has a value at a point just if every node of its tree has
a finite plain value there, and it is the plain value of the tree. Otherwise the point is refused
for the first node, from left to right and behind its operands, whose plain value is not finite; its
place is reported, and the expression is never called malformed. -/
theorem Expression.evaluate_strict {source : List Char} {e : Expression}
    (h : ofText source = .ok e) (x : Float) :
    (∀ v, e.evaluate x = .ok v ↔
      (∀ n ∈ e.doubles.nodes, (n.value x).isFinite = true) ∧ v = e.doubles.value x) ∧
    (∀ v, e.evaluate x = .ok v → v.isFinite = true) ∧
    (∀ error, e.evaluate x = .error error ↔
      ∃ before n behind, e.doubles.nodes = before ++ n :: behind ∧
        (∀ m ∈ before, (m.value x).isFinite = true) ∧ (n.value x).isFinite = false ∧
        error = ⟨n.fault x, n.span⟩) ∧
    evaluateText source x = (e.evaluate x).mapError .valueless := by
  refine ⟨fun v => Expr.evaluate_eq_ok_iff, fun v hv => ?_,
    fun error => Expr.evaluate_eq_error_iff, ?_⟩
  · obtain ⟨hfinite, hvalue⟩ := Expr.evaluate_eq_ok_iff.mp hv
    rw [hvalue]
    exact hfinite _ e.doubles.self_mem_nodes
  · rw [evaluateText, h]
    cases he : e.evaluate x <;> simp [he, Except.mapError]

/-- At zero `x-1/x*2` is refused for its quotient, not for the product or the difference. -/
theorem Expression.evaluate_strict_quotient :
    ∃ e : Expression, ofText "x-1/x*2".toList = .ok e ∧
      e.evaluate 0 = .error ⟨.divisionByZero, ⟨2, 5⟩⟩ := by
  have htree : ofText "x-1/x*2".toList = .ok ⟨"x-1/x*2", .binary .sub (.var ⟨0, 1⟩)
      (.binary .mul (.binary .div (.number ⟨1, 0⟩ ⟨2, 3⟩) (.var ⟨4, 5⟩) ⟨2, 5⟩)
        (.number ⟨2, 0⟩ ⟨6, 7⟩) ⟨2, 7⟩) ⟨0, 7⟩⟩ := by decide +kernel
  refine ⟨_, htree, ((evaluate_strict htree 0).2.2.1 _).mpr
    ⟨[.var ⟨0, 1⟩, .number (Numeral.toFloat ⟨1, 0⟩) ⟨2, 3⟩, .var ⟨4, 5⟩], _, _, rfl, ?_, ?_, rfl⟩⟩
  · simp only [List.mem_cons, List.not_mem_nil, or_false, forall_eq_or_imp, forall_eq, Expr.value]
    decide +kernel
  · simp only [Expr.value]
    decide +kernel

end CurvePlot
