import CurvePlot.Proofs.Expr.PrecedenceCompleteness

/-!
# Reading by precedence follows the grammar

A reader with a level of room for every token never refuses the depth (`Expr.shallow_read`).
Together with soundness and completeness, the tokens of a text have the tree that the grammar gives
them, are refused when the grammar gives none, and are refused for their depth only when they are
many (`Expr.ofTokens_iff_derives`).
-/

namespace CurvePlot

open Grammar

namespace Expr

variable {v : String}

/-! ### Depth -/

/-- A reading that is not too deep, and goes on so, is not too deep. -/
theorem not_tooDeep_bind {β γ : Type} {x : Except ReadError β} {f : β → Except ReadError γ}
    (hx : ¬TooDeep x) (hf : ∀ a, x = .ok a → ¬TooDeep (f a)) : ¬TooDeep (x >>= f) := by
  cases x with
  | error error =>
    rintro ⟨span, h⟩
    cases h
    exact hx ⟨span, rfl⟩
  | ok a => exact hf a rfl

/-- What is read is not too deep. -/
theorem not_tooDeep_ok {β : Type} (a : β) : ¬TooDeep (.ok a : Except ReadError β) := by
  rintro ⟨span, h⟩
  cases h

/-- A refusal for another cause is not too deep. -/
theorem not_tooDeep_refuse {β : Type} {cause : Malformed} (h : cause ≠ .nestedTooDeeply)
    (token : Token) : ¬TooDeep (refuse cause token : Except ReadError β) := by
  rintro ⟨span, he⟩
  cases he
  exact h rfl

/-- A certain lexeme is never missing for its depth. -/
theorem not_tooDeep_expect (lexeme : Lexeme) (tokens : List Token) :
    ¬TooDeep (expect lexeme tokens) := by
  unfold expect
  split
  · exact not_tooDeep_ok _
  · exact not_tooDeep_refuse (by simp) _

/-- Whether a reader of expressions finds no text of fewer tokens too deep. -/
def Shallow (inner : ℕ → List Token → Reading) (size : ℕ) : Prop :=
  ∀ least tokens, tokens.length < size → ¬TooDeep (inner least tokens)

/-- A name is not too deep where its argument is not. -/
theorem not_tooDeep_readName {inner : ℕ → List Token → Reading} {size : ℕ}
    (hinner : Shallow inner size) {name : String} {token : Token} {tokens : List Token}
    (h : tokens.length < size) : ¬TooDeep (readName inner v name token tokens) := by
  unfold readName
  split
  · exact not_tooDeep_ok _
  · split
    · split
      · refine not_tooDeep_bind (hinner 0 _ (by rw [List.length_tail]; omega)) ?_
        rintro ⟨argument, behind⟩ -
        dsimp only
        split
        · exact not_tooDeep_ok _
        · exact not_tooDeep_refuse (by simp) _
      · exact not_tooDeep_refuse (by simp) _
    · exact not_tooDeep_ok _
    · exact not_tooDeep_refuse (by simp) _

/-- An operand is not too deep where what it consists of is not. -/
theorem not_tooDeep_readOperand {inner : ℕ → List Token → Reading} {size : ℕ}
    (hinner : Shallow inner size) {tokens : List Token} (h : tokens.length ≤ size) :
    ¬TooDeep (readOperand inner v tokens) := by
  cases tokens with
  | nil => exact not_tooDeep_refuse (by simp) _
  | cons token tokens =>
    have hsize : tokens.length < size := h
    unfold readOperand
    dsimp only [peek_cons, List.tail_cons]
    split
    · exact not_tooDeep_ok _
    · exact not_tooDeep_readName hinner hsize
    · refine not_tooDeep_bind (hinner _ _ hsize) fun p _ => ?_
      exact not_tooDeep_bind (not_tooDeep_expect _ _) fun q _ => not_tooDeep_ok _
    · refine not_tooDeep_bind (hinner _ _ hsize) fun p _ => ?_
      exact not_tooDeep_bind (not_tooDeep_expect _ _) fun q _ => not_tooDeep_ok _
    · exact not_tooDeep_bind (hinner _ _ hsize) fun p _ => not_tooDeep_ok _
    · exact hinner _ _ hsize
    · exact not_tooDeep_refuse (by simp) _

/-- A chain of operators is not too deep with a level of room for every token. -/
theorem not_tooDeep_readOperators {inner : ℕ → List Token → Reading} (hsound : SoundReader v inner)
    {size : ℕ} (hinner : Shallow inner size) {least room : ℕ} {left : Expr Numeral}
    {tokens : List Token} (hsize : tokens.length ≤ size) (hroom : tokens.length ≤ room) :
    ¬TooDeep (readOperators inner least room left tokens) := by
  induction room generalizing left tokens with
  | zero =>
    rw [readOperators_of_below]
    · exact not_tooDeep_ok _
    · rw [List.eq_nil_of_length_eq_zero (Nat.le_zero.mp hroom)]
      exact below_of_operator?_eq_none rfl
  | succ room ih =>
    rcases below_or_operator least tokens with hstop | ⟨o, token, behind, rfl, htoken, hstrong⟩
    · rw [readOperators_of_below hstop]
      exact not_tooDeep_ok _
    · rw [readOperators_succ htoken hstrong]
      refine not_tooDeep_bind (hinner _ _ hsize) fun p hp => ?_
      obtain ⟨taken, rfl, -, -⟩ := hsound.takes hp
      simp only [List.length_cons, List.length_append] at hsize hroom
      exact ih (by omega) (by omega)

/-- A text of fewer tokens than there is room is not too deep. -/
theorem shallow_read (v : String) (room : ℕ) : Shallow (read v room) room := by
  induction room with
  | zero => intro least tokens h; exact absurd h (Nat.not_lt_zero _)
  | succ room ih =>
    intro least tokens h
    have hsize : tokens.length ≤ room := Nat.le_of_lt_succ h
    unfold read
    refine not_tooDeep_bind (not_tooDeep_readOperand ih hsize) fun p hp => ?_
    obtain ⟨level, -, taken, rfl, -, -⟩ := readOperand_sound (read_sound v room) hp
    rw [List.length_append] at hsize
    exact not_tooDeep_readOperators (read_sound v room) ih (by omega) (by omega)

end Expr

/-! ### Complete texts -/

/-- A sign makes one of eight lexemes. -/
theorem Lexeme.mem_of_ofSign? {c : Char} {l : Lexeme} (h : ofSign? c = some l) :
    l ∈ [plus, minus, star, slash, caret, opening, closing, bar] := by
  unfold ofSign? at h
  repeat (split at h; · cases h; simp)
  cases h

namespace Token

/-- No scanned lexeme is the end of the source. -/
theorem scanLexeme_ne_finish {c : Char} {rest : List Char} {lexeme : Lexeme} {length : ℕ}
    (h : scanLexeme c rest = .ok (lexeme, length)) : lexeme ≠ .finish := by
  unfold scanLexeme at h
  split at h
  · next hsign =>
    cases h
    rintro rfl
    simpa using Lexeme.mem_of_ofSign? hsign
  · split at h
    · unfold scanNumber at h
      split at h <;> cases h
      simp
    · split at h <;> cases h
      simp

/-- No scanned token is the end of the source. -/
theorem ne_finish_of_mem_scan {place : ℕ} {source : List Char} {tokens : List Token}
    (h : scan place source = .ok tokens) : ∀ token ∈ tokens, token.lexeme ≠ .finish := by
  fun_induction scan place source generalizing tokens with
  | case1 => cases h; simp
  | case2 place c rest hblank ih => exact ih h
  | case3 => cases h
  | case4 => cases h
  | case5 place c rest hblank lexeme length hlexeme others hothers ih =>
    cases h
    intro token htoken
    rcases List.mem_cons.mp htoken with rfl | htoken
    · exact scanLexeme_ne_finish hlexeme
    · exact ih hothers token htoken

/-- Nor is an unwritten star. -/
theorem mem_withProducts {tokens : List Token} {token : Token} (h : token ∈ withProducts tokens) :
    token ∈ tokens ∨ token.lexeme = .star := by
  fun_induction withProducts tokens with
  | case1 left right rest himplies ih =>
    rcases List.mem_cons.mp h with rfl | h
    · exact Or.inl List.mem_cons_self
    · rcases List.mem_cons.mp h with rfl | h
      · exact Or.inr rfl
      · exact (ih h).imp_left (List.mem_cons_of_mem _)
  | case2 left right rest himplies ih =>
    rcases List.mem_cons.mp h with rfl | h
    · exact Or.inl List.mem_cons_self
    · exact (ih h).imp_left (List.mem_cons_of_mem _)
  | case3 tokens => exact Or.inl h

/-- The lexemes of a text, up to the end of the source. -/
def body (tokens : List Token) : List Lexeme :=
  (lexemes tokens).takeWhile fun l => l != .finish

/-- The body of a text holds the scanned lexemes and the unwritten stars. -/
theorem exists_scan {source : List Char} {tokens : List Token} (h : ofText source = .ok tokens) :
    ∃ scanned, scan 0 source = .ok scanned ∧ body tokens = lexemes (withProducts scanned) := by
  obtain ⟨scanned, hs, rfl⟩ := map_eq_ok h
  have hlexemes : ∀ l ∈ lexemes (withProducts scanned), (l != .finish) = true := by
    intro l hl
    obtain ⟨token, htoken, rfl⟩ := List.mem_map.mp hl
    rw [bne_iff_ne]
    rcases mem_withProducts htoken with htoken | hstar
    · exact ne_finish_of_mem_scan hs token htoken
    · rw [hstar]; decide
  refine ⟨scanned, hs, ?_⟩
  unfold body
  rw [lexemes, List.map_append, ← lexemes, List.takeWhile_append_of_pos hlexemes]
  simp

/-- The tokens of a text are its body and the end of the source. -/
theorem exists_body {source : List Char} {tokens : List Token} (h : ofText source = .ok tokens) :
    ∃ front finish, tokens = front ++ [finish] ∧ finish.lexeme = .finish ∧
      body tokens = lexemes front := by
  obtain ⟨scanned, hscan, hbody⟩ := exists_scan h
  unfold ofText at h
  rw [hscan] at h
  cases h
  exact ⟨_, _, rfl, rfl, hbody⟩

end Token

namespace Expr

variable {v : String}

/-- The tree of a list of tokens is derived from its body. -/
theorem derives_of_ofTokens {tokens : List Token} {e : Expr Numeral}
    (h : ofTokens v tokens = .ok e) : Derives v .expr (Token.body tokens) e.skeleton := by
  unfold ofTokens at h
  split at h
  · cases h
  · obtain ⟨⟨inside, rest⟩, hr, hbehind⟩ := bind_eq_ok h
    obtain ⟨taken, rfl, hderives, -⟩ := (read_sound v nestingLimit).takes hr
    dsimp only at hbehind
    split at hbehind
    · next hpeek =>
      cases hbehind
      have htaken : ∀ l ∈ lexemes taken, (l != .finish) = true := by
        intro l hl
        rw [bne_iff_ne]
        rintro rfl
        exact hderives.finish_not_mem hl
      have hrest : (lexemes rest).takeWhile (fun l => l != .finish) = [] := by
        cases rest with
        | nil => rfl
        | cons token rest =>
          have htoken : token.lexeme = .finish := beq_iff_eq.mp hpeek
          simp [lexemes, htoken]
      have hbody : Token.body (taken ++ rest) = lexemes taken := by
        rw [Token.body, lexemes, List.map_append, ← lexemes, ← lexemes,
          List.takeWhile_append_of_pos htaken, hrest, List.append_nil]
      exact hbody ▸ hderives
    · cases hbehind

/-- The tokens of a text are read up to the end of the source where there is room for their depth. -/
theorem readsWithin_of_nests {source : List Char} {tokens : List Token}
    (htokens : Token.ofText source = .ok tokens) {chain depth : ℕ} {t : Skeleton Numeral}
    (h : Nests v .expr chain depth (Token.body tokens) t) (room : ℕ) :
    ∃ finish : Token, finish.lexeme = .finish ∧
      ReadsWithin depth room (read v room 0 tokens) t [finish] := by
  obtain ⟨front, finish, rfl, hfinish, hbody⟩ := Token.exists_body htokens
  rw [hbody] at h
  have hend : Below 0 [finish] := below_of_operator?_eq_none (by rw [peek_cons, hfinish]; rfl)
  exact ⟨finish, hfinish,
    (settles_of_nests h).reads rfl (by decide) (hend.mono (Nat.zero_le _)) hend⟩

/-- A list of tokens whose body the grammar derives has that tree if its depth is below the limit, and
is too deep otherwise. -/
theorem ofTokens_of_nests {source : List Char} {tokens : List Token}
    (htokens : Token.ofText source = .ok tokens) {chain depth : ℕ} {t : Skeleton Numeral}
    (h : Nests v .expr chain depth (Token.body tokens) t) :
    (depth < nestingLimit ∧ ∃ e : Expr Numeral, ofTokens v tokens = .ok e ∧ e.skeleton = t) ∨
      (nestingLimit ≤ depth ∧ TooDeep (ofTokens v tokens)) := by
  obtain ⟨finish, hfinish, hread⟩ := readsWithin_of_nests htokens h nestingLimit
  obtain ⟨front, last, rfl, -, hbody⟩ := Token.exists_body htokens
  rw [hbody] at h
  have hpeek : ((peek (front ++ [last])).lexeme == .finish) = false := by
    cases front with
    | nil => exact absurd rfl h.derives.ne_nil
    | cons token front =>
      refine beq_false_of_ne fun heq => h.derives.finish_not_mem ?_
      rw [← heq]
      exact List.mem_cons_self
  have hlast : ((peek [finish]).lexeme == .finish) = true := by rw [peek_cons, hfinish]; rfl
  simp only [ofTokens, hpeek, Bool.false_eq_true, if_false]
  rcases hread with ⟨hroom, e, he, hread⟩ | ⟨hroom, hdeep⟩
  · refine Or.inl ⟨hroom, e, ?_, he⟩
    rw [hread]
    simp only [bind, Except.bind, hlast, if_true]
  · exact Or.inr ⟨hroom, hdeep.bind _⟩

/-- A list of tokens whose body the grammar derives has that tree, unless it is too deep. -/
theorem ofTokens_of_derives {source : List Char} {tokens : List Token}
    (htokens : Token.ofText source = .ok tokens) {t : Skeleton Numeral}
    (h : Derives v .expr (Token.body tokens) t) :
    (∃ e : Expr Numeral, ofTokens v tokens = .ok e ∧ e.skeleton = t) ∨
      TooDeep (ofTokens v tokens) := by
  obtain ⟨chain, depth, hnests⟩ := h.exists_nests
  exact (ofTokens_of_nests htokens hnests).imp And.right And.right

/-- The tree of a list of tokens is nested less deep than the limit. -/
theorem exists_nests_of_ofTokens {source : List Char} {tokens : List Token}
    (htokens : Token.ofText source = .ok tokens) {e : Expr Numeral} (h : ofTokens v tokens = .ok e) :
    ∃ chain depth, depth < nestingLimit ∧
      Nests v .expr chain depth (Token.body tokens) e.skeleton := by
  obtain ⟨chain, depth, hnests⟩ := (derives_of_ofTokens h).exists_nests
  rcases ofTokens_of_nests htokens hnests with ⟨hdepth, -⟩ | ⟨-, span, hdeep⟩
  · exact ⟨chain, depth, hdepth, hnests⟩
  · rw [h] at hdeep
    cases hdeep

/-- A list of fewer tokens than levels may nest is not too deep. -/
theorem not_tooDeep_ofTokens {tokens : List Token} (h : tokens.length < nestingLimit) :
    ¬TooDeep (ofTokens v tokens) := by
  unfold ofTokens
  split
  · rintro ⟨span, he⟩
    cases he
  · refine not_tooDeep_bind (shallow_read v nestingLimit 0 tokens h) ?_
    rintro ⟨e, rest⟩ -
    dsimp only
    split
    · exact not_tooDeep_ok _
    · exact not_tooDeep_refuse (by simp) _

/-- Unless its depth is refused, the tokens of a text have exactly the tree that the grammar derives
from them up to the end of the source; they are refused when it derives none, and for their depth
only when they are many. -/
theorem ofTokens_iff_derives {source : List Char} {tokens : List Token}
    (htokens : Token.ofText source = .ok tokens) (v : String) :
    (¬TooDeep (ofTokens v tokens) → ∀ t : Skeleton Numeral,
      (∃ e : Expr Numeral, ofTokens v tokens = .ok e ∧ e.skeleton = t) ↔
        Derives v .expr (Token.body tokens) t) ∧
    ((∀ t : Skeleton Numeral, ¬Derives v .expr (Token.body tokens) t) →
      ∃ error : ReadError, ofTokens v tokens = .error error) ∧
    (TooDeep (ofTokens v tokens) → nestingLimit ≤ tokens.length) := by
  refine ⟨fun hdeep t => ⟨?_, fun h => ?_⟩, fun hnone => ?_, fun hdeep => ?_⟩
  · rintro ⟨e, he, rfl⟩
    exact derives_of_ofTokens he
  · exact (ofTokens_of_derives htokens h).resolve_right hdeep
  · cases hresult : ofTokens v tokens with
    | error error => exact ⟨error, rfl⟩
    | ok e => exact absurd (derives_of_ofTokens hresult) (hnone e.skeleton)
  · exact Nat.le_of_not_lt fun h => not_tooDeep_ofTokens h hdeep

/-- In `-x^2`, the power is taken before the sign. -/
theorem ofTokens_iff_derives_sign :
    ∃ tokens : List Token, Token.ofText ['-', 'x', '^', '2'] = .ok tokens ∧
      ∃ e : Expr Numeral, ofTokens "x" tokens = .ok e ∧
        e.skeleton = .negation (.binary .pow .var (.number ⟨2, 0⟩)) := by
  have htokens : Token.ofText ['-', 'x', '^', '2'] = .ok
      [⟨.minus, ⟨0, 1⟩⟩, ⟨.name "x", ⟨1, 2⟩⟩, ⟨.caret, ⟨2, 3⟩⟩,
        ⟨.number ⟨['2'], none, none⟩, ⟨3, 4⟩⟩, ⟨.finish, ⟨4, 4⟩⟩] :=
    eq_ok_of_toOption (by decide +kernel)
  have hpower : Derives "x" .power ([.name "x"] ++ .caret :: [.number ⟨['2'], none, none⟩])
      (.binary .pow .var (.number ⟨2, 0⟩)) :=
    .power .var (.ofPower (.ofAtom (.number _)))
  obtain ⟨hiff, -, hdepth⟩ := ofTokens_iff_derives htokens "x"
  have hshallow : ¬TooDeep (ofTokens "x" _) := fun hdeep => absurd (hdepth hdeep) (by decide)
  exact ⟨_, htokens, (hiff hshallow _).mpr (.ofTerm (.ofUnary (.minus (.ofPower hpower))))⟩

end Expr

end CurvePlot
