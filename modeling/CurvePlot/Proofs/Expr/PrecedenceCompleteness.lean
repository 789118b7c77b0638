import CurvePlot.Proofs.Expr.Nesting
import CurvePlot.Proofs.Expr.PrecedenceSoundness

/-!
# What is derived is read by precedence

An expression of a level is read off any text that begins with it just if there is room for its
depth, and refused for its depth otherwise (`Expr.settles_of_nests`). For chains that group to the
left, the statement is not that the expression is read to its end but that the reader comes to the
place behind it, with the room that its chain leaves (`Expr.Settles`), from where it may go on with
the next operator.
-/

namespace CurvePlot

open Grammar

namespace Expr

variable {v : String}

/-- Whether a reading is refused for its depth. -/
def TooDeep {β : Type} (result : Except ReadError β) : Prop :=
  ∃ span, result = .error ⟨.nestedTooDeeply, span⟩

/-- A reading that is too deep makes what is built on it too deep. -/
theorem TooDeep.bind {β γ : Type} {x : Except ReadError β} (h : TooDeep x)
    (f : β → Except ReadError γ) : TooDeep (x >>= f) := by
  obtain ⟨span, rfl⟩ := h
  exact ⟨span, rfl⟩

/-- Whether an expression with the skeleton is read off the front if a depth is within the room, and
the depth is refused otherwise. -/
def ReadsWithin (depth room : ℕ) (result : Reading) (t : Skeleton Numeral) (rest : List Token) :
    Prop :=
  (depth < room ∧ ∃ e : Expr Numeral, e.skeleton = t ∧ result = .ok (e, rest)) ∨
    (room ≤ depth ∧ TooDeep result)

/-- What is built on a reading is read where the reading is, and refused where it is. -/
theorem ReadsWithin.bind {depth room : ℕ} {result : Reading} {t u : Skeleton Numeral}
    {rest rest' : List Token} (h : ReadsWithin depth room result t rest)
    {f : Expr Numeral × List Token → Reading} (build : Expr Numeral → Expr Numeral)
    (hbuild : ∀ e, e.skeleton = t → (build e).skeleton = u)
    (hf : ∀ e, f (e, rest) = .ok (build e, rest')) :
    ReadsWithin depth room (result >>= f) u rest' := by
  rcases h with ⟨hroom, e, he, rfl⟩ | ⟨hroom, hdeep⟩
  · exact Or.inl ⟨hroom, build e, hbuild e he, hf e⟩
  · exact Or.inr ⟨hroom, hdeep.bind f⟩

/-- Whether reading comes to a place where an expression with the skeleton is complete and operators
may follow, with the room that a chain leaves, if a depth is within the room, and the depth is
refused otherwise. -/
def ReachesWithin (v : String) (chain depth room least : ℕ) (tokens : List Token)
    (t : Skeleton Numeral) (rest : List Token) : Prop :=
  (depth ≤ room ∧ ∃ left, left.skeleton = t ∧ read v (room + 1) least tokens =
      readOperators (read v room) least (room - chain) left rest) ∨
    (room < depth ∧ TooDeep (read v (room + 1) least tokens))

/-- The least operator of a level's expressions. -/
def weakest : Level → ℕ
  | .expr => 9
  | .term => 11
  | .unary | .power | .atom => 16

/-- Whether the row of lexemes is read as the skeleton where there is room for its depth, and
refused elsewhere, whatever the least strength, unless a stronger operator than fits the level
stands behind it. -/
def Settles (v : String) (level : Level) (chain depth : ℕ) (ls : List Lexeme)
    (t : Skeleton Numeral) : Prop :=
  ∀ room least taken rest, lexemes taken = ls → least ≤ weakest level → Below (bound level) rest →
    ReachesWithin v chain depth room least (taken ++ rest) t rest

variable {level : Level} {chain depth : ℕ} {ls : List Lexeme} {t : Skeleton Numeral}

/-- Where no operator follows that is strong enough, what is settled is read if there is room. -/
theorem Settles.reads (h : Settles v level chain depth ls t) {room least : ℕ}
    {taken rest : List Token} (htaken : lexemes taken = ls) (hleast : least ≤ weakest level)
    (hbelow : Below (bound level) rest) (hstop : Below least rest) :
    ReadsWithin depth room (read v room least (taken ++ rest)) t rest := by
  cases room with
  | zero => exact Or.inr ⟨Nat.zero_le _, _, rfl⟩
  | succ room =>
    rcases h room least taken rest htaken hleast hbelow with
      ⟨hroom, left, hleft, hread⟩ | ⟨hroom, hdeep⟩
    · exact Or.inl ⟨Nat.lt_succ_of_le hroom, left, hleft, by
        rw [hread, readOperators_of_below hstop]⟩
    · exact Or.inr ⟨hroom, hdeep⟩

/-- What is settled on a level is so on a higher one, where fewer operators fit. -/
theorem Settles.lift {low high : Level} (hle : low.rank ≤ high.rank)
    (h : Settles v low chain depth ls t) : Settles v high chain depth ls t := by
  have hbound : bound high ≤ bound low := by
    revert hle
    cases low <;> cases high <;> decide
  have hweakest : weakest high ≤ weakest low := by
    revert hle
    cases low <;> cases high <;> decide
  exact fun room least taken rest htaken hleast hbelow =>
    h room least taken rest htaken (Nat.le_trans hleast hweakest) (hbelow.mono hbound)

/-- A leaf that is read is reached, whatever the room. -/
theorem reaches_of_leaf {room least : ℕ} {tokens rest : List Token} {e : Expr Numeral}
    (h : readOperand (read v room) v tokens = .ok (e, rest)) :
    ReachesWithin v 0 0 room least tokens e.skeleton rest := by
  refine Or.inl ⟨Nat.zero_le _, e, rfl, ?_⟩
  rw [read, h]
  rfl

/-- An operand is reached where there is room for it. -/
theorem reaches_of_readOperand {room least : ℕ} {tokens rest : List Token}
    (h : ReadsWithin depth room (readOperand (read v room) v tokens) t rest) :
    ReachesWithin v 0 (depth + 1) room least tokens t rest := by
  rcases h with ⟨hroom, e, he, hread⟩ | ⟨hroom, hdeep⟩
  · refine Or.inl ⟨hroom, e, he, ?_⟩
    rw [read, hread]
    rfl
  · refine Or.inr ⟨Nat.lt_succ_of_le hroom, ?_⟩
    rw [read]
    exact hdeep.bind _

/-- Two operands with an operator between them are settled on the operator's level. -/
theorem Settles.binary {o : Operator} {chain' depth' : ℕ} {rs : List Lexeme}
    {l r : Skeleton Numeral} (left : Settles v (leftLevel o) chain depth ls l)
    (right : Settles v (rightLevel o) chain' depth' rs r) (hchain : chain ≤ depth) :
    Settles v (levelOf o) (chain + 1) (max depth (max (chain + 1) (depth' + 1)))
      (ls ++ o.lexeme :: rs) (.binary o l r) := by
  intro room least taken rest htaken hleast hbelow
  obtain ⟨front, behind, rfl, hfront, hbehind⟩ := List.map_eq_append_iff.mp htaken
  obtain ⟨token, back, rfl, htoken, hback⟩ := List.map_eq_cons_iff.mp hbehind
  have hstrong : least ≤ o.strengths.1 := Nat.le_trans hleast (by cases o <;> decide)
  have hweakest : least ≤ weakest (leftLevel o) := Nat.le_trans hleast (by cases o <;> decide)
  have hfollows : Below (bound (leftLevel o)) (token :: (back ++ rest)) :=
    below_cons_operator htoken (by cases o <;> decide) _
  have hright : ReadsWithin depth' room (read v room o.strengths.2 (back ++ rest)) r rest :=
    right.reads hback (by cases o <;> decide) (hbelow.mono (by cases o <;> decide))
      (hbelow.mono (by cases o <;> decide))
  rw [List.append_assoc, List.cons_append]
  rcases left room least front _ hfront hweakest hfollows with
    ⟨hroom, left, hleft, hread⟩ | ⟨hroom, hdeep⟩
  · -- Whether the chain has room for one more operator.
    cases hleaves : room - chain with
    | zero =>
      rw [hleaves] at hread
      exact Or.inr ⟨by omega, by rw [hread, readOperators_zero htoken hstrong]; exact ⟨_, rfl⟩⟩
    | succ room' =>
      rw [hleaves] at hread
      have hnext : room - (chain + 1) = room' := by omega
      rcases hright with ⟨hroom', right, hr, hinner⟩ | ⟨hroom', hdeep⟩
      · refine Or.inl ⟨by omega, .binary o left right (left.span.hull right.span), ?_, ?_⟩
        · rw [skeleton, hleft, hr]
        · rw [hread, readOperators_succ htoken hstrong, hinner, hnext]
          rfl
      · refine Or.inr ⟨by omega, ?_⟩
        rw [hread, readOperators_succ htoken hstrong]
        exact hdeep.bind _
  · exact Or.inr ⟨by omega, hdeep⟩

/-- Enclosed between tokens, what is settled is read up to the closing one. -/
theorem Settles.reads_enclosed (h : Settles v .expr chain depth ls t) (room : ℕ)
    {taken : List Token} (htaken : lexemes taken = ls) {close : Token}
    (hclose : close.lexeme.operator? = none) (rest : List Token) :
    ReadsWithin depth room (read v room 0 (taken ++ close :: rest)) t (close :: rest) :=
  h.reads htaken (by decide) (below_of_operator?_eq_none hclose)
    (below_of_operator?_eq_none hclose)

/-- One lexeme is that of one token. -/
theorem exists_of_lexemes_eq_singleton {taken : List Token} {l : Lexeme}
    (h : lexemes taken = [l]) : ∃ token, taken = [token] ∧ token.lexeme = l := by
  obtain ⟨token, nothing, rfl, htoken, hnothing⟩ := List.map_eq_cons_iff.mp h
  obtain rfl := List.map_eq_nil_iff.mp hnothing
  exact ⟨token, rfl, htoken⟩

/-- Lexemes between two others are those of tokens between two others. -/
theorem exists_of_lexemes_eq_enclosed {taken : List Token} {first last : Lexeme}
    (h : lexemes taken = first :: (ls ++ [last])) :
    ∃ opening inside closing, taken = opening :: (inside ++ [closing]) ∧
      opening.lexeme = first ∧ lexemes inside = ls ∧ closing.lexeme = last := by
  obtain ⟨opening, behind, rfl, hopening, hbehind⟩ := List.map_eq_cons_iff.mp h
  obtain ⟨inside, back, rfl, hinside, hback⟩ := List.map_eq_append_iff.mp hbehind
  obtain ⟨closing, rfl, hclosing⟩ := exists_of_lexemes_eq_singleton hback
  exact ⟨opening, inside, closing, rfl, hopening, hinside, hclosing⟩

/-- A certain lexeme in front is found. -/
theorem expect_cons {lexeme : Lexeme} {token : Token} (h : token.lexeme = lexeme)
    (tokens : List Token) : expect lexeme (token :: tokens) = .ok (token, tokens) := by
  simp [expect, h]

/-- What stands between parentheses is read with them. -/
theorem Settles.parentheses (h : Settles v .expr chain depth ls t) :
    Settles v .atom 0 (depth + 1) (.opening :: (ls ++ [.closing])) t := by
  intro room least taken rest htaken _ _
  obtain ⟨opening, inside, closing, rfl, hopening, hinside, hclosing⟩ :=
    exists_of_lexemes_eq_enclosed htaken
  have hend : closing.lexeme.operator? = none := by rw [hclosing]; rfl
  have hread := h.reads_enclosed room hinside hend rest
  refine reaches_of_readOperand ?_
  simp only [List.cons_append, List.append_assoc, List.nil_append, readOperand, peek_cons, hopening,
    List.tail_cons]
  exact hread.bind id (fun e he => he) fun e => by rw [expect_cons hclosing]; rfl

/-- What stands between bars is read with them. -/
theorem Settles.bars (h : Settles v .expr chain depth ls t) :
    Settles v .atom 0 (depth + 1) (.bar :: (ls ++ [.bar])) (.call .abs t) := by
  intro room least taken rest htaken _ _
  obtain ⟨opening, inside, closing, rfl, hopening, hinside, hclosing⟩ :=
    exists_of_lexemes_eq_enclosed htaken
  have hend : closing.lexeme.operator? = none := by rw [hclosing]; rfl
  have hread := h.reads_enclosed room hinside hend rest
  refine reaches_of_readOperand ?_
  simp only [List.cons_append, List.append_assoc, List.nil_append, readOperand, peek_cons, hopening,
    List.tail_cons]
  exact hread.bind (fun e => .call .abs e (opening.span.hull closing.span))
    (fun e he => by rw [skeleton, he]) fun e => by rw [expect_cons hclosing]; rfl

/-- A call is read with its argument. -/
theorem Settles.call {name : String} {function : NamedFunction} (hname : name ≠ v)
    (hfunction : NamedFunction.ofName? name = some function)
    (h : Settles v .expr chain depth ls t) :
    Settles v .atom 0 (depth + 1) (.name name :: .opening :: (ls ++ [.closing]))
      (.call function t) := by
  intro room least taken rest htaken _ _
  obtain ⟨token, call, rfl, htoken, hcall⟩ := List.map_eq_cons_iff.mp htaken
  obtain ⟨opening, inside, closing, rfl, hopening, hinside, hclosing⟩ :=
    exists_of_lexemes_eq_enclosed hcall
  have hend : closing.lexeme.operator? = none := by rw [hclosing]; rfl
  have hread := h.reads_enclosed room hinside hend rest
  refine reaches_of_readOperand ?_
  have hname : (name == v) = false := beq_false_of_ne hname
  have hopens : (opening.lexeme == .opening) = true := beq_iff_eq.mpr hopening
  have hcloses : (closing.lexeme == .closing) = true := beq_iff_eq.mpr hclosing
  simp only [List.cons_append, List.append_assoc, List.nil_append, readOperand, peek_cons, htoken,
    List.tail_cons, readName, hname, Bool.false_eq_true, if_false, hfunction, hopens, if_true]
  exact hread.bind (fun e => .call function e (token.span.hull closing.span))
    (fun e he => by rw [skeleton, he]) fun e => by
      simp only [peek_cons, hcloses, if_true, List.tail_cons]

/-- A sign is read with its operand. -/
theorem Settles.sign {sign : Lexeme} {u : Skeleton Numeral} (h : Settles v .unary chain depth ls t)
    (hsign : ∀ (room : ℕ) (inner : ℕ → List Token → Reading) (token : Token)
      (tokens rest : List Token), token.lexeme = sign →
        ReadsWithin depth room (inner signStrength tokens) t rest →
          ReadsWithin depth room (readOperand inner v (token :: tokens)) u rest) :
    Settles v .unary 0 (depth + 1) (sign :: ls) u := by
  intro room least taken rest htaken _ hbelow
  obtain ⟨token, operand, rfl, htoken, hoperand⟩ := List.map_eq_cons_iff.mp htaken
  have hread : ReadsWithin depth room (read v room signStrength (operand ++ rest)) t rest :=
    h.reads hoperand (by decide) hbelow (hbelow.mono (by decide))
  exact reaches_of_readOperand (hsign room _ token _ rest htoken hread)

/-- Every expression of the grammar is read as its skeleton where there is room for its depth, and
refused for its depth elsewhere. -/
theorem settles_of_nests (h : Nests v level chain depth ls t) :
    Settles v level chain depth ls t := by
  induction h with
  | number literal =>
    intro room least taken rest htaken _ _
    obtain ⟨token, rfl, htoken⟩ := exists_of_lexemes_eq_singleton htaken
    refine reaches_of_leaf (e := .number literal.numeral token.span) ?_
    simp only [List.cons_append, List.nil_append, readOperand, peek_cons, htoken, List.tail_cons]
  | var =>
    intro room least taken rest htaken _ _
    obtain ⟨token, rfl, htoken⟩ := exists_of_lexemes_eq_singleton htaken
    refine reaches_of_leaf (e := .var token.span) ?_
    simp only [List.cons_append, List.nil_append, readOperand, peek_cons, htoken, List.tail_cons,
      readName, beq_self_eq_true, if_true]
  | @constant name named hname hfunction hconstant =>
    intro room least taken rest htaken _ _
    obtain ⟨token, rfl, htoken⟩ := exists_of_lexemes_eq_singleton htaken
    have hname : (name == v) = false := beq_false_of_ne hname
    refine reaches_of_leaf (e := .constant named token.span) ?_
    simp only [List.cons_append, List.nil_append, readOperand, peek_cons, htoken, List.tail_cons,
      readName, hname, Bool.false_eq_true, if_false, hfunction, hconstant]
  | call hname hfunction _ ih => exact ih.call hname hfunction
  | parentheses _ ih => exact ih.parentheses
  | bars _ ih => exact ih.bars
  | minus _ ih =>
    refine ih.sign fun room inner token tokens rest htoken hread => ?_
    simp only [readOperand, peek_cons, htoken, List.tail_cons]
    exact hread.bind (fun e => .negation e (token.span.hull e.span))
      (fun e he => by rw [skeleton, he]) fun e => rfl
  | plus _ ih =>
    refine ih.sign fun room inner token tokens rest htoken hread => ?_
    simp only [readOperand, peek_cons, htoken, List.tail_cons]
    exact hread
  | binary hl _ ihl ihr => exact ihl.binary ihr hl.chain_le
  | lift hle _ ih => exact ih.lift hle

end Expr

end CurvePlot
