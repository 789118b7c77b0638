import CurvePlot.Proofs.Expr.Grammar

/-!
# How deep an expression is nested

The reader counts levels of nesting in two ways: the level grows by one inside of parentheses, bars
and calls, behind a sign, and in the right operand of an operator; and the operators that follow one
another on one level must not be more than the levels that are left. `Grammar.Nests` is the
derivation of an expression with both counts: the operators of the chain that it is, and the levels
that it takes up below its own. A chain of more operators than these levels counts itself.

Every derived expression has such counts (`Grammar.Derives.exists_nests`).
-/

namespace CurvePlot

namespace Grammar

/-- Whether a row of lexemes is an expression of a level with this skeleton, which is a chain of
so many operators and nested so deep. -/
inductive Nests (variableName : String) :
    Level → (chain depth : ℕ) → List Lexeme → Skeleton Numeral → Prop where
  /-- A number. -/
  | number (literal : Literal) :
    Nests variableName .atom 0 0 [.number literal] (.number literal.numeral)
  /-- The variable. -/
  | var : Nests variableName .atom 0 0 [.name variableName] .var
  /-- A constant, whose name is neither the variable's nor a function's. -/
  | constant {name : String} {named : NamedConstant} (hname : name ≠ variableName)
    (hfunction : NamedFunction.ofName? name = none)
    (hconstant : NamedConstant.ofName? name = some named) :
    Nests variableName .atom 0 0 [.name name] (.constant named)
  /-- A call of a function, whose name is not the variable's. -/
  | call {name : String} {function : NamedFunction} {chain depth : ℕ} {ls : List Lexeme}
    {t : Skeleton Numeral} (hname : name ≠ variableName)
    (hfunction : NamedFunction.ofName? name = some function)
    (argument : Nests variableName .expr chain depth ls t) :
    Nests variableName .atom 0 (depth + 1) (.name name :: .opening :: (ls ++ [.closing]))
      (.call function t)
  /-- Parentheses. -/
  | parentheses {chain depth : ℕ} {ls : List Lexeme} {t : Skeleton Numeral}
    (inner : Nests variableName .expr chain depth ls t) :
    Nests variableName .atom 0 (depth + 1) (.opening :: (ls ++ [.closing])) t
  /-- Bars. -/
  | bars {chain depth : ℕ} {ls : List Lexeme} {t : Skeleton Numeral}
    (inner : Nests variableName .expr chain depth ls t) :
    Nests variableName .atom 0 (depth + 1) (.bar :: (ls ++ [.bar])) (.call .abs t)
  /-- An operand with a minus sign. -/
  | minus {chain depth : ℕ} {ls : List Lexeme} {t : Skeleton Numeral}
    (operand : Nests variableName .unary chain depth ls t) :
    Nests variableName .unary 0 (depth + 1) (.minus :: ls) (.negation t)
  /-- An operand with a plus sign. -/
  | plus {chain depth : ℕ} {ls : List Lexeme} {t : Skeleton Numeral}
    (operand : Nests variableName .unary chain depth ls t) :
    Nests variableName .unary 0 (depth + 1) (.plus :: ls) t
  /-- An operation on what its operator applies to. -/
  | binary {o : Operator} {chain depth chain' depth' : ℕ} {ls rs : List Lexeme}
    {l r : Skeleton Numeral} (left : Nests variableName (leftLevel o) chain depth ls l)
    (right : Nests variableName (rightLevel o) chain' depth' rs r) :
    Nests variableName (levelOf o) (chain + 1) (max depth (max (chain + 1) (depth' + 1)))
      (ls ++ o.lexeme :: rs) (.binary o l r)
  /-- An expression of a level is one of every higher level. -/
  | lift {low high : Level} {chain depth : ℕ} {ls : List Lexeme} {t : Skeleton Numeral}
    (hle : low.rank ≤ high.rank) (h : Nests variableName low chain depth ls t) :
    Nests variableName high chain depth ls t

variable {v : String} {level : Level} {chain depth : ℕ} {ls : List Lexeme} {t : Skeleton Numeral}

/-- What is derived with counts is derived. -/
theorem Nests.derives (h : Nests v level chain depth ls t) : Derives v level ls t := by
  induction h with
  | number literal => exact .number literal
  | var => exact .var
  | constant hname hfunction hconstant => exact .constant hname hfunction hconstant
  | call hname hfunction _ ih => exact .call hname hfunction ih
  | parentheses _ ih => exact .parentheses ih
  | bars _ ih => exact .bars ih
  | minus _ ih => exact .minus ih
  | plus _ ih => exact .plus ih
  | binary _ _ ihl ihr => exact ihl.binary ihr
  | lift hle _ ih => exact ih.of_rank_le hle

/-- What is derived has counts. -/
theorem Derives.exists_nests (h : Derives v level ls t) :
    ∃ chain depth, Nests v level chain depth ls t := by
  induction h with
  | number literal => exact ⟨0, 0, .number literal⟩
  | var => exact ⟨0, 0, .var⟩
  | constant hname hfunction hconstant => exact ⟨0, 0, .constant hname hfunction hconstant⟩
  | call hname hfunction _ ih =>
    obtain ⟨_, _, h⟩ := ih
    exact ⟨_, _, .call hname hfunction h⟩
  | parentheses _ ih =>
    obtain ⟨_, _, h⟩ := ih
    exact ⟨_, _, h.parentheses⟩
  | bars _ ih =>
    obtain ⟨_, _, h⟩ := ih
    exact ⟨_, _, h.bars⟩
  | minus _ ih =>
    obtain ⟨_, _, h⟩ := ih
    exact ⟨_, _, h.minus⟩
  | plus _ ih =>
    obtain ⟨_, _, h⟩ := ih
    exact ⟨_, _, h.plus⟩
  | ofAtom _ ih | ofPower _ ih | ofUnary _ ih | ofTerm _ ih =>
    obtain ⟨_, _, h⟩ := ih
    exact ⟨_, _, h.lift (by decide)⟩
  | power _ _ ihl ihr =>
    obtain ⟨_, _, hl⟩ := ihl
    obtain ⟨_, _, hr⟩ := ihr
    exact ⟨_, _, .binary (o := .pow) hl hr⟩
  | product ho _ _ ihl ihr =>
    obtain ⟨_, _, hl⟩ := ihl
    obtain ⟨_, _, hr⟩ := ihr
    rcases ho with rfl | rfl
    · exact ⟨_, _, .binary (o := .mul) hl hr⟩
    · exact ⟨_, _, .binary (o := .div) hl hr⟩
  | sum ho _ _ ihl ihr =>
    obtain ⟨_, _, hl⟩ := ihl
    obtain ⟨_, _, hr⟩ := ihr
    rcases ho with rfl | rfl
    · exact ⟨_, _, .binary (o := .add) hl hr⟩
    · exact ⟨_, _, .binary (o := .sub) hl hr⟩

/-- A chain takes up a level for each of its operators. -/
theorem Nests.chain_le (h : Nests v level chain depth ls t) : chain ≤ depth := by
  induction h with
  | lift _ _ ih => exact ih
  | _ => omega

end Grammar

end CurvePlot
