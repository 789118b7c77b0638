import CurvePlot.Expr.Precedence
import Mathlib.Data.Nat.Notation

/-!
# The grammar of expressions

Expressions have five levels. Sums and differences group to the left, and so do products and
quotients; a power has an atom at its base and groups to the right, its exponent being a signed
operand. Plus signs and parentheses leave no node, and bars are the absolute value. A name is the
variable before it is a function, and a function before it is a constant.

`Grammar.Derives` says which rows of lexemes are expressions of a level, and of which skeleton: the
tree without the places of its parts.
-/

namespace CurvePlot

/-- An expression without the places of its parts. -/
inductive Skeleton (ν : Type) where
  /-- A number. -/
  | number (value : ν)
  /-- The variable. -/
  | var
  /-- A named constant. -/
  | constant (name : NamedConstant)
  /-- An operation on two operands. -/
  | binary (operator : Operator) (left right : Skeleton ν)
  /-- A change of sign. -/
  | negation (operand : Skeleton ν)
  /-- A call of a named function. -/
  | call (function : NamedFunction) (argument : Skeleton ν)
deriving DecidableEq, Repr

/-- The expression without the places of its parts. -/
def Expr.skeleton {ν : Type} : Expr ν → Skeleton ν
  | number value _ => .number value
  | var _ => .var
  | constant name _ => .constant name
  | binary operator left right _ => .binary operator left.skeleton right.skeleton
  | negation operand _ => .negation operand.skeleton
  | call function argument _ => .call function argument.skeleton

/-- The lexeme that stands between the operands. -/
def Operator.lexeme : Operator → Lexeme
  | add => .plus
  | sub => .minus
  | mul => .star
  | div => .slash
  | pow => .caret

/-- Between two operands, a lexeme is the operator that it stands for. -/
theorem Lexeme.operator?_eq_some_iff {l : Lexeme} {o : Operator} :
    l.operator? = some o ↔ l = o.lexeme := by
  cases l <;> cases o <;> simp [operator?, Operator.lexeme]

namespace Grammar

/-- The levels of expressions. -/
inductive Level where
  /-- Numbers, names, calls, and what stands in parentheses or bars. -/
  | atom
  /-- Powers. -/
  | power
  /-- Powers with signs in front. -/
  | unary
  /-- Products and quotients. -/
  | term
  /-- Sums and differences. -/
  | expr
deriving DecidableEq, Repr

/-- Whether a row of lexemes is an expression of a level with this skeleton. -/
inductive Derives (variableName : String) : Level → List Lexeme → Skeleton Numeral → Prop where
  /-- A number. -/
  | number (literal : Literal) :
    Derives variableName .atom [.number literal] (.number literal.numeral)
  /-- The variable. -/
  | var : Derives variableName .atom [.name variableName] .var
  /-- A constant, whose name is neither the variable's nor a function's. -/
  | constant {name : String} {named : NamedConstant} (hname : name ≠ variableName)
    (hfunction : NamedFunction.ofName? name = none)
    (hconstant : NamedConstant.ofName? name = some named) :
    Derives variableName .atom [.name name] (.constant named)
  /-- A call of a function, whose name is not the variable's. -/
  | call {name : String} {function : NamedFunction} {ls : List Lexeme} {t : Skeleton Numeral}
    (hname : name ≠ variableName) (hfunction : NamedFunction.ofName? name = some function)
    (argument : Derives variableName .expr ls t) :
    Derives variableName .atom (.name name :: .opening :: (ls ++ [.closing])) (.call function t)
  /-- Parentheses. -/
  | parentheses {ls : List Lexeme} {t : Skeleton Numeral}
    (inner : Derives variableName .expr ls t) :
    Derives variableName .atom (.opening :: (ls ++ [.closing])) t
  /-- Bars. -/
  | bars {ls : List Lexeme} {t : Skeleton Numeral} (inner : Derives variableName .expr ls t) :
    Derives variableName .atom (.bar :: (ls ++ [.bar])) (.call .abs t)
  /-- An atom is a power. -/
  | ofAtom {ls : List Lexeme} {t : Skeleton Numeral} (h : Derives variableName .atom ls t) :
    Derives variableName .power ls t
  /-- A power with an exponent. -/
  | power {ls rs : List Lexeme} {l r : Skeleton Numeral} (base : Derives variableName .atom ls l)
    (exponent : Derives variableName .unary rs r) :
    Derives variableName .power (ls ++ .caret :: rs) (.binary .pow l r)
  /-- A power is an operand. -/
  | ofPower {ls : List Lexeme} {t : Skeleton Numeral} (h : Derives variableName .power ls t) :
    Derives variableName .unary ls t
  /-- An operand with a minus sign. -/
  | minus {ls : List Lexeme} {t : Skeleton Numeral} (operand : Derives variableName .unary ls t) :
    Derives variableName .unary (.minus :: ls) (.negation t)
  /-- An operand with a plus sign. -/
  | plus {ls : List Lexeme} {t : Skeleton Numeral} (operand : Derives variableName .unary ls t) :
    Derives variableName .unary (.plus :: ls) t
  /-- An operand is a term. -/
  | ofUnary {ls : List Lexeme} {t : Skeleton Numeral} (h : Derives variableName .unary ls t) :
    Derives variableName .term ls t
  /-- A product or a quotient. -/
  | product {o : Operator} {ls rs : List Lexeme} {l r : Skeleton Numeral}
    (ho : o = .mul ∨ o = .div) (left : Derives variableName .term ls l)
    (right : Derives variableName .unary rs r) :
    Derives variableName .term (ls ++ o.lexeme :: rs) (.binary o l r)
  /-- A term is an expression. -/
  | ofTerm {ls : List Lexeme} {t : Skeleton Numeral} (h : Derives variableName .term ls t) :
    Derives variableName .expr ls t
  /-- A sum or a difference. -/
  | sum {o : Operator} {ls rs : List Lexeme} {l r : Skeleton Numeral}
    (ho : o = .add ∨ o = .sub) (left : Derives variableName .expr ls l)
    (right : Derives variableName .term rs r) :
    Derives variableName .expr (ls ++ o.lexeme :: rs) (.binary o l r)

variable {v : String}

/-- No expression is empty. -/
theorem Derives.ne_nil {level : Level} {ls : List Lexeme} {t : Skeleton Numeral}
    (h : Derives v level ls t) : ls ≠ [] := by
  induction h with
  | ofAtom _ ih | ofPower _ ih | ofUnary _ ih | ofTerm _ ih => exact ih
  | _ => simp

/-- No expression contains the end of the source. -/
theorem Derives.finish_not_mem {level : Level} {ls : List Lexeme} {t : Skeleton Numeral}
    (h : Derives v level ls t) : Lexeme.finish ∉ ls := by
  induction h with
  | ofAtom _ ih | ofPower _ ih | ofUnary _ ih | ofTerm _ ih => exact ih
  | product ho _ _ ihl ihr | sum ho _ _ ihl ihr =>
    rcases ho with rfl | rfl <;> simp [ihl, ihr, Operator.lexeme]
  | power _ _ ihl ihr => simp [ihl, ihr]
  | call _ _ _ ih | parentheses _ ih | bars _ ih | minus _ ih | plus _ ih => simp [ih]
  | number _ | var | constant _ _ _ => simp

/-- The place of a level among the levels, counted from the atoms. -/
def Level.rank : Level → ℕ
  | atom => 0
  | power => 1
  | unary => 2
  | term => 3
  | expr => 4

/-- Atoms and powers are operands. -/
theorem Derives.toUnary {level : Level} (hlevel : level.rank ≤ 2) {ls : List Lexeme}
    {t : Skeleton Numeral} (h : Derives v level ls t) : Derives v .unary ls t := by
  cases level with
  | atom => exact .ofPower (.ofAtom h)
  | power => exact .ofPower h
  | unary => exact h
  | term | expr => exact absurd hlevel (by decide)

/-- All but sums and differences are terms. -/
theorem Derives.toTerm {level : Level} (hlevel : level.rank ≤ 3) {ls : List Lexeme}
    {t : Skeleton Numeral} (h : Derives v level ls t) : Derives v .term ls t := by
  cases level with
  | atom | power | unary => exact .ofUnary (h.toUnary (by decide))
  | term => exact h
  | expr => exact absurd hlevel (by decide)

/-- An expression of a level is one of every higher level. -/
theorem Derives.of_rank_le {low high : Level} (hle : low.rank ≤ high.rank) {ls : List Lexeme}
    {t : Skeleton Numeral} (h : Derives v low ls t) : Derives v high ls t := by
  cases high with
  | expr =>
    cases low with
    | expr => exact h
    | _ => exact .ofTerm (h.toTerm (by decide))
  | term => exact h.toTerm hle
  | unary => exact h.toUnary hle
  | power =>
    cases low with
    | atom => exact .ofAtom h
    | power => exact h
    | _ => exact absurd hle (by decide)
  | atom =>
    cases low with
    | atom => exact h
    | _ => exact absurd hle (by decide)

/-- The level of the operator's operations. -/
def levelOf : Operator → Level
  | .add | .sub => .expr
  | .mul | .div => .term
  | .pow => .power

/-- The level that the operator's left operand has. -/
def leftLevel : Operator → Level
  | .add | .sub => .expr
  | .mul | .div => .term
  | .pow => .atom

/-- The level that the operator's right operand has. -/
def rightLevel : Operator → Level
  | .add | .sub => .term
  | .mul | .div | .pow => .unary

/-- Two operands of the operator's levels make an expression of its own level. -/
theorem Derives.binary {o : Operator} {ls rs : List Lexeme} {l r : Skeleton Numeral}
    (left : Derives v (leftLevel o) ls l) (right : Derives v (rightLevel o) rs r) :
    Derives v (levelOf o) (ls ++ o.lexeme :: rs) (.binary o l r) := by
  cases o with
  | add => exact .sum (Or.inl rfl) left right
  | sub => exact .sum (Or.inr rfl) left right
  | mul => exact .product (Or.inl rfl) left right
  | div => exact .product (Or.inr rfl) left right
  | pow => exact .power left right

end Grammar

end CurvePlot
