import CurvePlot.Proofs.Expr.Grammar
import CurvePlot.Proofs.Results

/-!
# What is read by precedence is derived

What the reader takes for an operand of some least strength is an expression of the level of that
strength, and no operator of that strength stands behind it (`Expr.read_sound`). While operators
are read, the expression so far has a level that the operator in front applies to: this is what
one operator keeps, and with it a chain.
-/

namespace CurvePlot

open Grammar

/-- The lexemes of tokens. -/
def lexemes (tokens : List Token) : List Lexeme :=
  tokens.map Token.lexeme

namespace Expr

variable {v : String}

/-! ### Tokens in front -/

/-- The token in front is the first one. -/
@[simp] theorem peek_cons (token : Token) (tokens : List Token) : peek (token :: tokens) = token :=
  rfl

/-- A lexeme in front, other than the end of the source, is that of a first token. -/
theorem exists_cons_of_peek {tokens : List Token} {lexeme : Lexeme}
    (h : (peek tokens).lexeme = lexeme) (hfinish : lexeme ≠ .finish) :
    ∃ token rest, tokens = token :: rest ∧ token.lexeme = lexeme := by
  cases tokens with
  | nil => exact absurd h.symm hfinish
  | cons token rest => exact ⟨token, rest, rfl, h⟩

/-- Whether an operator in front is weaker than the bound to its left; anything else in front is. -/
def Below (bound : ℕ) (tokens : List Token) : Prop :=
  ∀ o, (peek tokens).lexeme.operator? = some o → o.strengths.1 < bound

/-- A weaker operator is below every greater bound. -/
theorem Below.mono {a b : ℕ} {tokens : List Token} (h : Below a tokens) (hab : a ≤ b) :
    Below b tokens :=
  fun o ho => Nat.lt_of_lt_of_le (h o ho) hab

/-- An operator in front is below a bound that exceeds its strength. -/
theorem below_cons_operator {bound : ℕ} {token : Token} {o : Operator}
    (htoken : token.lexeme = o.lexeme) (ho : o.strengths.1 < bound) (tokens : List Token) :
    Below bound (token :: tokens) := by
  intro p hp
  rw [peek_cons, htoken, Lexeme.operator?_eq_some_iff] at hp
  cases o <;> cases p <;> simp_all [Operator.lexeme]

/-- A lexeme in front that is no operator is below every bound. -/
theorem below_of_operator?_eq_none {bound : ℕ} {tokens : List Token}
    (h : (peek tokens).lexeme.operator? = none) : Below bound tokens := by
  intro o ho
  rw [h] at ho
  cases ho

/-! ### Strengths and levels -/

/-- The bound that an operator behind an expression of the level stays below. -/
def bound : Level → ℕ
  | .expr => 10
  | .term | .unary | .power => 12
  | .atom => 17

/-- The level of what is read with this least strength. -/
def levelOfLeast (least : ℕ) : Level :=
  if least ≤ 9 then .expr else if least ≤ 11 then .term else .unary

/-- What an operator applies to on its right is read with the strength of that level. -/
theorem levelOfLeast_right (o : Operator) : levelOfLeast o.strengths.2 = rightLevel o := by
  cases o <;> rfl

/-- An operator that is strong enough makes an expression of the level that is read. -/
theorem rank_levelOf_le {o : Operator} {least : ℕ} (h : least ≤ o.strengths.1) :
    (levelOf o).rank ≤ (levelOfLeast least).rank := by
  unfold levelOfLeast
  cases o with
  | add | sub => rw [if_pos (by simpa [Operator.strengths] using h)]; decide
  | mul | div =>
    split
    · decide
    · rw [if_pos (by simpa [Operator.strengths] using h)]; decide
  | pow =>
    split
    · decide
    · split <;> decide

/-- An operator that stays below the bound of a level applies to the level. -/
theorem rank_le_leftLevel {o : Operator} {level : Level} (h : o.strengths.1 < bound level) :
    level.rank ≤ (leftLevel o).rank := by
  cases o <;> cases level <;> first | decide | exact absurd h (by decide)

/-- Behind its right operand, an operator stays below the bound of the operation. -/
theorem below_levelOf {o : Operator} {tokens : List Token} (h : Below o.strengths.2 tokens) :
    Below (bound (levelOf o)) tokens := by
  intro p hp
  have hlt := h p hp
  revert hlt
  cases o <;> cases p <;> decide

/-! ### Operators in front -/

/-- A weaker operator in front, or none, ends an operand. -/
theorem readOperators_of_below {inner : ℕ → List Token → Reading} {least room : ℕ}
    {left : Expr Numeral} {tokens : List Token} (h : Below least tokens) :
    readOperators inner least room left tokens = .ok (left, tokens) := by
  unfold readOperators
  cases ho : (peek tokens).lexeme.operator? with
  | none => rfl
  | some o =>
    dsimp only
    rw [if_pos (h o ho)]

/-- Either an operand ends, or there is an operator in front that is strong enough. -/
theorem below_or_operator (least : ℕ) (tokens : List Token) :
    Below least tokens ∨ ∃ (o : Operator) (token : Token) (rest : List Token),
      tokens = token :: rest ∧ token.lexeme = o.lexeme ∧ least ≤ o.strengths.1 := by
  cases ho : (peek tokens).lexeme.operator? with
  | none => exact Or.inl (below_of_operator?_eq_none ho)
  | some o =>
    obtain ⟨token, rest, rfl, htoken⟩ :=
      exists_cons_of_peek (Lexeme.operator?_eq_some_iff.mp ho) (by cases o <;> decide)
    by_cases hweak : o.strengths.1 < least
    · exact Or.inl (below_cons_operator htoken hweak rest)
    · exact Or.inr ⟨o, token, rest, rfl, htoken, Nat.le_of_not_lt hweak⟩

/-- Without room, a strong operator in front is refused. -/
theorem readOperators_zero {inner : ℕ → List Token → Reading} {least : ℕ} {left : Expr Numeral}
    {token : Token} {tokens : List Token} {o : Operator} (htoken : token.lexeme = o.lexeme)
    (ho : least ≤ o.strengths.1) :
    readOperators inner least 0 left (token :: tokens) = refuse .nestedTooDeeply token := by
  unfold readOperators
  rw [peek_cons, Lexeme.operator?_eq_some_iff.mpr htoken]
  dsimp only
  rw [if_neg (Nat.not_lt_of_le ho)]

/-- With room, a strong operator in front takes its right operand. -/
theorem readOperators_succ {inner : ℕ → List Token → Reading} {least room : ℕ}
    {left : Expr Numeral} {token : Token} {tokens : List Token} {o : Operator}
    (htoken : token.lexeme = o.lexeme) (ho : least ≤ o.strengths.1) :
    readOperators inner least (room + 1) left (token :: tokens) = (do
      let (right, rest) ← inner o.strengths.2 tokens
      readOperators inner least room (.binary o left right (left.span.hull right.span)) rest) := by
  rw [readOperators, peek_cons, Lexeme.operator?_eq_some_iff.mpr htoken]
  dsimp only
  rw [if_neg (Nat.not_lt_of_le ho)]
  rfl

/-! ### Soundness -/

/-- Whether a reading took an expression of the level from the front, up to an operator below the
bound. -/
def Takes (v : String) (level : Level) (limit : ℕ) (tokens : List Token) (e : Expr Numeral)
    (rest : List Token) : Prop :=
  ∃ taken, tokens = taken ++ rest ∧ Derives v level (lexemes taken) e.skeleton ∧ Below limit rest

/-- Whether a reader of expressions of a given least strength takes what is one. -/
def SoundReader (v : String) (inner : ℕ → List Token → Reading) : Prop :=
  ∀ least tokens e rest, inner least tokens = .ok (e, rest) →
    Takes v (levelOfLeast least) least tokens e rest

/-- What is read behind a token is taken. -/
theorem SoundReader.takes {inner : ℕ → List Token → Reading} (h : SoundReader v inner) {least : ℕ}
    {tokens : List Token} {p : Expr Numeral × List Token} (hp : inner least tokens = .ok p) :
    Takes v (levelOfLeast least) least tokens p.1 p.2 :=
  h least tokens p.1 p.2 hp

/-- A name and its argument are taken as an atom. -/
theorem readName_sound {inner : ℕ → List Token → Reading} (hinner : SoundReader v inner)
    {name : String} {token : Token} (htoken : token.lexeme = .name name) {tokens : List Token}
    {e : Expr Numeral} {rest : List Token}
    (h : readName inner v name token tokens = .ok (e, rest)) :
    ∃ taken, token :: tokens = taken ++ rest ∧ Derives v .atom (lexemes taken) e.skeleton := by
  unfold readName at h
  split at h
  · next hname =>
    cases h
    refine ⟨[token], rfl, ?_⟩
    rw [lexemes, List.map_singleton, htoken, beq_iff_eq.mp hname]
    exact .var
  · next hname =>
    have hname : name ≠ v := by simpa using hname
    split at h
    · next function hfunction =>
      split at h
      · next hopens =>
        obtain ⟨opening, behind, rfl, hopening⟩ :=
          exists_cons_of_peek (beq_iff_eq.mp hopens) (by decide)
        obtain ⟨⟨argument, after⟩, hr, hbehind⟩ := bind_eq_ok h
        rw [List.tail_cons] at hr
        obtain ⟨taken, rfl, hderives, -⟩ := hinner.takes hr
        dsimp only at hbehind
        split at hbehind
        · next hcloses =>
          obtain ⟨closing, final, rfl, hclosing⟩ :=
            exists_cons_of_peek (beq_iff_eq.mp hcloses) (by decide)
          cases hbehind
          refine ⟨token :: opening :: (taken ++ [closing]), by simp, ?_⟩
          simp only [lexemes, List.map_cons, List.map_append, List.map_nil, htoken, hopening,
            hclosing]
          exact .call hname hfunction hderives
        · cases hbehind
      · cases h
    · next named hfunction hnamed =>
      cases h
      refine ⟨[token], rfl, ?_⟩
      rw [lexemes, List.map_singleton, htoken]
      exact .constant hname hfunction hnamed
    · cases h

/-- A certain lexeme that is found is the first token. -/
theorem expect_eq_ok {lexeme : Lexeme} (hfinish : lexeme ≠ .finish) {tokens rest : List Token}
    {token : Token} (h : expect lexeme tokens = .ok (token, rest)) :
    tokens = token :: rest ∧ token.lexeme = lexeme := by
  unfold expect at h
  split at h
  · next hpeek =>
    obtain ⟨first, behind, rfl, hfirst⟩ := exists_cons_of_peek (beq_iff_eq.mp hpeek) hfinish
    cases h
    exact ⟨rfl, hfirst⟩
  · cases h

/-- What is enclosed between two tokens is taken. -/
theorem SoundReader.enclosed {inner : ℕ → List Token → Reading} (hinner : SoundReader v inner)
    (wrap : Expr Numeral → Token → Expr Numeral) {close : Lexeme} (hclose : close ≠ .finish)
    {tokens : List Token} {e : Expr Numeral} {rest : List Token}
    (h : (do
      let (e, tokens) ← inner 0 tokens
      let (token, tokens) ← expect close tokens
      .ok (wrap e token, tokens) : Reading) = .ok (e, rest)) :
    ∃ taken inside token, tokens = taken ++ token :: rest ∧ token.lexeme = close ∧
      e = wrap inside token ∧ Derives v .expr (lexemes taken) inside.skeleton := by
  obtain ⟨⟨inside, after⟩, hr, hbehind⟩ := bind_eq_ok h
  obtain ⟨⟨token, final⟩, hx, hend⟩ := bind_eq_ok hbehind
  obtain ⟨taken, htokens, hderives, -⟩ := hinner.takes hr
  obtain ⟨hafter, htoken⟩ := expect_eq_ok hclose hx
  cases hend
  exact ⟨taken, inside, token, by rw [htokens, hafter], htoken, rfl, hderives⟩

/-- An operand is taken, and no stronger operator than fits its level stands behind it. -/
theorem readOperand_sound {inner : ℕ → List Token → Reading} (hinner : SoundReader v inner)
    {tokens : List Token} {e : Expr Numeral} {rest : List Token}
    (h : readOperand inner v tokens = .ok (e, rest)) :
    ∃ level, level.rank ≤ 2 ∧ Takes v level (bound level) tokens e rest := by
  have hatom : Below (bound .atom) rest := fun o _ => by cases o <;> decide
  cases tokens with
  | nil => cases h
  | cons token tokens =>
    unfold readOperand at h
    dsimp only [peek_cons, List.tail_cons] at h
    split at h
    · next literal htoken =>
      cases h
      refine ⟨.atom, by decide, [token], rfl, ?_, hatom⟩
      rw [lexemes, List.map_singleton, htoken]
      exact .number literal
    · next name htoken =>
      obtain ⟨taken, htokens, hderives⟩ := readName_sound hinner htoken h
      exact ⟨.atom, by decide, taken, htokens, hderives, hatom⟩
    · next htoken =>
      obtain ⟨taken, inside, close, rfl, hclose, rfl, hderives⟩ :=
        hinner.enclosed (fun e _ => e) (by decide) h
      refine ⟨.atom, by decide, token :: (taken ++ [close]), by simp, ?_, hatom⟩
      simp only [lexemes, List.map_cons, List.map_append, List.map_nil, htoken, hclose]
      exact .parentheses hderives
    · next htoken =>
      obtain ⟨taken, inside, close, rfl, hclose, rfl, hderives⟩ :=
        hinner.enclosed (fun e close => .call .abs e (token.span.hull close.span)) (by decide) h
      refine ⟨.atom, by decide, token :: (taken ++ [close]), by simp, ?_, hatom⟩
      simp only [lexemes, List.map_cons, List.map_append, List.map_nil, htoken, hclose]
      exact .bars hderives
    · next htoken =>
      obtain ⟨⟨operand, after⟩, hr, hbehind⟩ := bind_eq_ok h
      obtain ⟨taken, rfl, hderives, hbelow⟩ := hinner.takes hr
      cases hbehind
      refine ⟨.unary, by decide, token :: taken, rfl, ?_, ?_⟩
      · rw [lexemes, List.map_cons, htoken]
        exact .minus hderives
      · exact below_levelOf (o := .pow) (hbelow.mono (by decide))
    · next htoken =>
      obtain ⟨taken, rfl, hderives, hbelow⟩ := hinner.takes h
      refine ⟨.unary, by decide, token :: taken, rfl, ?_, ?_⟩
      · rw [lexemes, List.map_cons, htoken]
        exact .plus hderives
      · exact below_levelOf (o := .pow) (hbelow.mono (by decide))
    · cases h

/-- The operators behind an operand are taken with it. The level of what is taken so far grows with
every operator, but not beyond the level that is read. -/
theorem readOperators_sound {inner : ℕ → List Token → Reading} (hinner : SoundReader v inner)
    {least room : ℕ} {taken : List Token} {left : Expr Numeral} {tokens : List Token}
    {level : Level} (hlevel : level.rank ≤ (levelOfLeast least).rank)
    (hleft : Derives v level (lexemes taken) left.skeleton) (hbelow : Below (bound level) tokens)
    {e : Expr Numeral} {rest : List Token}
    (h : readOperators inner least room left tokens = .ok (e, rest)) :
    Takes v (levelOfLeast least) least (taken ++ tokens) e rest := by
  induction room generalizing taken left tokens level with
  | zero =>
    rcases below_or_operator least tokens with hstop | ⟨o, token, behind, rfl, htoken, hstrong⟩
    · rw [readOperators_of_below hstop] at h
      cases h
      exact ⟨taken, rfl, hleft.of_rank_le hlevel, hstop⟩
    · rw [readOperators_zero htoken hstrong] at h
      cases h
  | succ room ih =>
    rcases below_or_operator least tokens with hstop | ⟨o, token, behind, rfl, htoken, hstrong⟩
    · rw [readOperators_of_below hstop] at h
      cases h
      exact ⟨taken, rfl, hleft.of_rank_le hlevel, hstop⟩
    · rw [readOperators_succ htoken hstrong] at h
      have hfits := hbelow o (Lexeme.operator?_eq_some_iff.mpr htoken)
      obtain ⟨⟨right, after⟩, hr, hbehind⟩ := bind_eq_ok h
      obtain ⟨taken', rfl, hright, hbelow'⟩ := hinner.takes hr
      rw [levelOfLeast_right] at hright
      -- The operation is what is taken now, and its level is that of the operator.
      have hwhole : Derives v (levelOf o) (lexemes (taken ++ token :: taken'))
          (binary o left right (left.span.hull right.span)).skeleton := by
        have hoperation := (hleft.of_rank_le (rank_le_leftLevel hfits)).binary hright
        simpa [lexemes, htoken, skeleton] using hoperation
      have htaken := ih (rank_levelOf_le hstrong) hwhole (below_levelOf hbelow') hbehind
      simpa using htaken

/-- What is read is an expression of the level that is read, and no operator of its strength stands
behind it. -/
theorem read_sound (v : String) (room : ℕ) : SoundReader v (read v room) := by
  induction room with
  | zero => intro least tokens e rest h; cases h
  | succ room ih =>
    intro least tokens e rest h
    unfold read at h
    obtain ⟨⟨left, behind⟩, hr, hbehind⟩ := bind_eq_ok h
    obtain ⟨level, hlevel, taken, rfl, hderives, hbelow⟩ := readOperand_sound ih hr
    have hrank : level.rank ≤ (levelOfLeast least).rank := by
      refine Nat.le_trans hlevel ?_
      unfold levelOfLeast
      split
      · decide
      · split <;> decide
    exact readOperators_sound ih hrank hderives hbelow hbehind

end Expr

end CurvePlot
