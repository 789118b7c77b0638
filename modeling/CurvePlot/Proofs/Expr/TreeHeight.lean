import CurvePlot.Proofs.Expr.SignMoves

/-!
# The height of accepted trees

The levels of nesting bound the height of a tree, but not by their own number. A chain of operators
stands on the first of its operands. That one may be as high as the levels below allow, and the
chain is counted without it, so every level can add a whole chain to the height. A tree nested `d`
levels deep has at most `1 + … + d` nodes above one another from these levels and `d` more from the
outermost chain, which is `d * (d + 3) / 2` (`Grammar.Nests.two_mul_height_le`). Bars with a sum
behind them, one pair inside of the other, are as high as that (`Expression.tower`).
-/

namespace CurvePlot

/-- The nodes on the longest way from the root to a leaf, the leaf left out. -/
def Skeleton.height {ν : Type} : Skeleton ν → ℕ
  | number _ | var | constant _ => 0
  | binary _ left right => max left.height right.height + 1
  | negation operand => operand.height + 1
  | call _ argument => argument.height + 1

/-- Where the parts stand does not matter for the height. -/
@[simp] theorem Expr.height_skeleton {ν : Type} (e : Expr ν) : e.skeleton.height = e.height := by
  induction e <;> simp_all [skeleton, height, Skeleton.height]

namespace Grammar

variable {v : String} {level : Level} {chain depth : ℕ} {ls : List Lexeme} {t : Skeleton Numeral}

/-- An expression is at most as high as a chain on every level below its own, and its own chain. -/
theorem Nests.two_mul_height_le (h : Nests v level chain depth ls t) :
    2 * t.height ≤ depth * (depth + 1) + 2 * chain := by
  -- One level further down, the chain is one of those that the levels allow.
  have hlevel : ∀ {chain depth height : ℕ}, chain ≤ depth →
      2 * height ≤ depth * (depth + 1) + 2 * chain →
      2 * (height + 1) ≤ (depth + 1) * (depth + 1 + 1) := by
    intro chain depth height hchain hheight
    calc 2 * (height + 1) ≤ depth * (depth + 1) + 2 * depth + 2 := by omega
      _ = (depth + 1) * (depth + 1 + 1) := by ring
  induction h with
  | number _ | var | constant _ _ _ => simp [Skeleton.height]
  | call _ _ h ih | bars h ih | minus h ih => exact hlevel h.chain_le ih
  | parentheses h ih | plus h ih =>
    have := hlevel h.chain_le ih
    omega
  | lift _ _ ih => exact ih
  | @binary o chain depth chain' depth' ls rs l r hl hr ihl ihr =>
    have hright := hlevel hr.chain_le ihr
    generalize hnew : max depth (max (chain + 1) (depth' + 1)) = new
    have hbelow : depth * (depth + 1) ≤ new * (new + 1) := Nat.mul_le_mul (by omega) (by omega)
    have hbeside : (depth' + 1) * (depth' + 1 + 1) ≤ new * (new + 1) :=
      Nat.mul_le_mul (by omega) (by omega)
    simp only [Skeleton.height]
    omega

end Grammar

namespace Expression

/-! ### The highest trees -/

/-- The text of so many summands, each the variable. -/
def summands : ℕ → List Char
  | 0 => []
  | n + 1 => '+' :: 'x' :: summands n

/-- The text with bars inside of bars, as many as the depth, and behind each pair as many summands
as there are bars in it. -/
def tower : ℕ → List Char
  | 0 => ['x']
  | d + 1 => '|' :: (tower d ++ '|' :: summands (d + 1))

/-- The lexemes of the summands. -/
def summandRow : ℕ → List Lexeme
  | 0 => []
  | n + 1 => .plus :: .name variableName :: summandRow n

/-- The lexemes of the tower. -/
def towerRow : ℕ → List Lexeme
  | 0 => [.name variableName]
  | d + 1 => .bar :: (towerRow d ++ .bar :: summandRow (d + 1))

/-- The variable is scanned before what continues no name. -/
theorem scans_variable {rest : List Char} {ls : List Lexeme} (h : Token.Scans rest ls)
    (hrest : ∀ c ∈ rest.head?, Text.isNameChar c = false) :
    Token.Scans ('x' :: rest) (.name variableName :: ls) := by
  have hword : ∀ c ∈ ['x'], Text.isNameChar c = true := by
    intro c hc
    rw [List.mem_singleton.mp hc]
    decide
  exact .word (Token.heads_name (List.cons_ne_nil 'x' []) hword hrest) h

/-- A sign is scanned before anything. -/
theorem scans_sign {c : Char} {l : Lexeme} (hc : Lexeme.ofSign? c = some l) {rest : List Char}
    {ls : List Lexeme} (h : Token.Scans rest ls) : Token.Scans (c :: rest) (l :: ls) :=
  .word (Token.heads_sign hc rest) h

/-- Behind the variable of a tower, no name goes on. -/
theorem head_summands (n : ℕ) {rest : List Char}
    (hrest : ∀ c ∈ rest.head?, Text.isNameChar c = false) :
    ∀ c ∈ (summands n ++ rest).head?, Text.isNameChar c = false := by
  cases n with
  | zero => exact hrest
  | succ n =>
    rintro c ⟨⟩
    decide

/-- Summands are scanned as their lexemes. -/
theorem scans_summands (n : ℕ) {rest : List Char} {ls : List Lexeme} (h : Token.Scans rest ls)
    (hrest : ∀ c ∈ rest.head?, Text.isNameChar c = false) :
    Token.Scans (summands n ++ rest) (summandRow n ++ ls) := by
  induction n with
  | zero => exact h
  | succ n ih => exact scans_sign rfl (scans_variable ih (head_summands n hrest))

/-- A tower is scanned as its lexemes. -/
theorem scans_tower (d : ℕ) {rest : List Char} {ls : List Lexeme} (h : Token.Scans rest ls)
    (hrest : ∀ c ∈ rest.head?, Text.isNameChar c = false) :
    Token.Scans (tower d ++ rest) (towerRow d ++ ls) := by
  induction d generalizing rest ls with
  | zero => exact scans_variable h hrest
  | succ d ih =>
    have hbehind := scans_sign (c := '|') rfl (scans_summands (d + 1) h hrest)
    have htower := scans_sign (c := '|') rfl (ih hbehind (by rintro c ⟨⟩; decide))
    simpa [tower, towerRow] using htower

/-- No star is put into the summands. -/
theorem withProducts_summandRow (n : ℕ) :
    Lexeme.withProducts (summandRow n) = summandRow n := by
  induction n with
  | zero => rfl
  | succ n ih =>
    have hhead : ∀ l ∈ (summandRow n).head?, l.beginsFactor = false := by
      cases n with
      | zero => simp [summandRow]
      | succ n => simp [summandRow, Lexeme.beginsFactor]
    have hname : Lexeme.withProducts ([.name variableName] ++ summandRow n) =
        [.name variableName] ++ summandRow n := by
      rw [Lexeme.withProducts_append hhead, ih]
      rfl
    rw [summandRow, Lexeme.withProducts_cons_left rfl]
    exact congrArg (Lexeme.plus :: ·) hname

/-- No star is put into a tower. -/
theorem withProducts_towerRow (d : ℕ) : Lexeme.withProducts (towerRow d) = towerRow d := by
  induction d with
  | zero => rfl
  | succ d ih =>
    have hhead : ∀ l ∈ (Lexeme.bar :: summandRow (d + 1)).head?, l.beginsFactor = false := by
      simp [Lexeme.beginsFactor]
    rw [towerRow, Lexeme.withProducts_cons_left rfl, Lexeme.withProducts_append hhead, ih,
      Lexeme.withProducts_cons_left rfl, withProducts_summandRow]

/-- Summands lengthen the chain in front of them and raise its tree, each by one, as long as the
levels suffice for the chain. -/
theorem nests_summands {chain depth : ℕ} {ls : List Lexeme} {t : Skeleton Numeral} (n : ℕ)
    (h : Grammar.Nests variableName .expr chain depth ls t) (hroom : chain + n ≤ depth) :
    ∃ s, Grammar.Nests variableName .expr (chain + n) depth (ls ++ summandRow n) s ∧
      s.height = t.height + n := by
  induction n generalizing chain ls t with
  | zero => exact ⟨t, by simpa [summandRow] using h, rfl⟩
  | succ n ih =>
    have hvar : Grammar.Nests variableName .term 0 0 [.name variableName] .var :=
      .lift (by decide) .var
    have hsum := Grammar.Nests.binary (o := .add) h hvar
    have hdepth : max depth (max (chain + 1) (0 + 1)) = depth := by omega
    rw [hdepth] at hsum
    obtain ⟨s, hs, hheight⟩ := ih hsum (by omega)
    refine ⟨s, ?_, ?_⟩
    · simpa [summandRow, Operator.lexeme, Grammar.levelOf, Nat.add_assoc, Nat.add_comm 1 n] using hs
    · simp only [Skeleton.height] at hheight
      omega

/-- A tower is nested to its depth and as high as it can be. -/
theorem nests_tower (d : ℕ) :
    ∃ t, Grammar.Nests variableName .expr d d (towerRow d) t ∧ 2 * t.height = d * (d + 3) := by
  induction d with
  | zero => exact ⟨.var, .lift (by decide) .var, rfl⟩
  | succ d ih =>
    obtain ⟨t, ht, hheight⟩ := ih
    have hbars : Grammar.Nests variableName .expr 0 (d + 1) (.bar :: (towerRow d ++ [.bar]))
        (.call .abs t) := .lift (by decide) ht.bars
    obtain ⟨s, hs, hraised⟩ := nests_summands (d + 1) hbars (by omega)
    refine ⟨s, by simpa [towerRow] using hs, ?_⟩
    simp only [Skeleton.height] at hraised
    calc 2 * s.height = 2 * t.height + 2 * (d + 2) := by omega
      _ = (d + 1) * (d + 1 + 3) := by rw [hheight]; ring

/-- At every depth below the limit, some accepted source is that high. -/
theorem exists_height_eq {depth : ℕ} (hdepth : depth < nestingLimit) :
    ∃ source e, ofText source = .ok e ∧ NestedTo source depth ∧
      2 * e.tree.height = depth * (depth + 3) := by
  obtain ⟨t, hnests, hheight⟩ := nests_tower depth
  have hscans := scans_tower depth .nil (by simp)
  rw [List.append_nil, List.append_nil] at hscans
  rw [← withProducts_towerRow] at hnests
  obtain ⟨-, e, he, htree⟩ | ⟨hlimit, -⟩ := ofText_of_nests hscans hnests
  · refine ⟨tower depth, e, he, (nestedTo_iff_of_nests hscans hnests depth).mpr rfl, ?_⟩
    rw [← Expr.height_skeleton, htree, hheight]
  · omega

/-- An accepted source is nested to one depth below the limit, and its tree is at most
`depth * (depth + 3) / 2` high. So the limit bounds the height where this is not above it, which is
so down to 21 levels. At every depth below the limit there are sources as high as that. -/
theorem height_le_and_attained {source : List Char} {e : Expression} (h : ofText source = .ok e) :
    (∃ depth < nestingLimit, (∀ d, NestedTo source d ↔ d = depth) ∧
      2 * e.tree.height ≤ depth * (depth + 3) ∧
      (depth * (depth + 3) ≤ 2 * nestingLimit → e.tree.height ≤ nestingLimit)) ∧
    ∀ depth < nestingLimit, ∃ source' e', ofText source' = .ok e' ∧ NestedTo source' depth ∧
      2 * e'.tree.height = depth * (depth + 3) := by
  refine ⟨?_, fun depth hdepth => exists_height_eq hdepth⟩
  obtain ⟨ls, chain, depth, hscans, hdepth, hnests⟩ := exists_nests h
  have hheight : 2 * e.tree.height ≤ depth * (depth + 3) := by
    have hbound := hnests.two_mul_height_le
    rw [Expr.height_skeleton] at hbound
    calc 2 * e.tree.height ≤ depth * (depth + 1) + 2 * depth := by
          have := hnests.chain_le
          omega
      _ = depth * (depth + 3) := by ring
  exact ⟨depth, hdepth, nestedTo_iff_of_nests hscans hnests, hheight, fun _ => by omega⟩

/-- `|x|+x` is nested one level deep and as high as two nodes. -/
theorem height_le_and_attained_bars :
    ∃ e, ofText (tower 1) = .ok e ∧ e.tree.height = 2 ∧
      (∃ depth < nestingLimit, (∀ d, NestedTo (tower 1) d ↔ d = depth) ∧
        2 * e.tree.height ≤ depth * (depth + 3) ∧
        (depth * (depth + 3) ≤ 2 * nestingLimit → e.tree.height ≤ nestingLimit)) ∧
      ∀ depth < nestingLimit, ∃ source' e', ofText source' = .ok e' ∧ NestedTo source' depth ∧
        2 * e'.tree.height = depth * (depth + 3) := by
  have hheight : (ofText (tower 1)).map (fun e => e.tree.height) = .ok 2 := by decide +kernel
  cases he : ofText (tower 1) with
  | error error => rw [he] at hheight; cases hheight
  | ok e =>
    rw [he] at hheight
    exact ⟨e, rfl, Except.ok.inj hheight, height_le_and_attained he⟩

/-- The limit does not bound the height: behind 255 signs two summands are accepted. -/
theorem not_height_le_nestingLimit :
    ¬∀ (source : List Char) (e : Expression), ofText source = .ok e →
      e.tree.height ≤ nestingLimit := by
  intro h
  have hheight : (ofText (List.replicate 255 '-' ++ ['x', '+', '1', '+', '1'])).map
      (fun e => e.tree.height) = .ok 257 := by decide +kernel
  cases he : ofText (List.replicate 255 '-' ++ ['x', '+', '1', '+', '1']) with
  | error error => rw [he] at hheight; cases hheight
  | ok e =>
    rw [he] at hheight
    have hhigh : e.tree.height = 257 := Except.ok.inj hheight
    have hlimit := h _ _ he
    rw [hhigh] at hlimit
    exact absurd hlimit (by decide)

end Expression

end CurvePlot
