import CurvePlot.Proofs.Expr.PrecedenceSoundness

/-!
# Places do not matter to the reader

The reader looks at the lexemes of its tokens and takes their places along. Two lists of tokens with
the same lexemes are read alike (`Expr.alike_read`): as trees with one skeleton, and with the same
lexemes left, or both refused for the same cause. What a step of the reader does with the outcome of
another step keeps this (`Alike.bind`), and so the reader does, level by level.
-/

namespace CurvePlot

/-- Whether two outcomes are values of which the relation holds, or refusals for the same cause. -/
inductive Alike {α β : Type} (same : α → β → Prop) : Except ReadError α → Except ReadError β → Prop
  /-- Two values. -/
  | ok {a : α} {b : β} (h : same a b) : Alike same (.ok a) (.ok b)
  /-- Two refusals. -/
  | error {e f : ReadError} (h : e.cause = f.cause) : Alike same (.error e) (.error f)

/-- Outcomes that are alike go on alike. -/
theorem Alike.bind {α β γ δ : Type} {same : α → β → Prop} {same' : γ → δ → Prop}
    {r : Except ReadError α} {s : Except ReadError β} (h : Alike same r s)
    {f : α → Except ReadError γ} {g : β → Except ReadError δ}
    (hbehind : ∀ a b, same a b → Alike same' (f a) (g b)) : Alike same' (r >>= f) (s >>= g) := by
  cases h with
  | ok h => exact hbehind _ _ h
  | error h => exact .error h

namespace Expr

/-- Refusals for one cause are alike, wherever they are. -/
theorem alike_refuse {α β : Type} {same : α → β → Prop} {cause cause' : Malformed}
    (h : cause = cause') (token token' : Token) :
    Alike same (refuse cause token) (refuse cause' token') :=
  .error h

variable {ts us : List Token} {v : String}

/-- Lists with the same lexemes have the same lexeme in front. -/
theorem lexeme_peek_eq (h : lexemes ts = lexemes us) : (peek ts).lexeme = (peek us).lexeme := by
  have hpeek : ∀ tokens : List Token,
      (peek tokens).lexeme = (lexemes tokens).head?.getD .finish := by
    intro tokens
    cases tokens <;> rfl
  rw [hpeek, hpeek, h]

/-- And the same lexemes behind it. -/
theorem lexemes_tail_eq (h : lexemes ts = lexemes us) : lexemes ts.tail = lexemes us.tail := by
  unfold lexemes at h ⊢
  rw [List.map_tail, List.map_tail, h]

/-- Whether two readings have one skeleton and leave the same lexemes. -/
def SameReading (p q : Expr Numeral × List Token) : Prop :=
  p.1.skeleton = q.1.skeleton ∧ lexemes p.2 = lexemes q.2

/-- Whether a reader reads lists with the same lexemes alike. -/
def Placeless (inner : ℕ → List Token → Reading) : Prop :=
  ∀ least ts us, lexemes ts = lexemes us → Alike SameReading (inner least ts) (inner least us)

/-- A certain lexeme is found in both lists or in neither. -/
theorem alike_expect (lexeme : Lexeme) (h : lexemes ts = lexemes us) :
    Alike (fun p q => lexemes p.2 = lexemes q.2) (expect lexeme ts) (expect lexeme us) := by
  unfold expect
  rw [lexeme_peek_eq h]
  split
  · exact .ok (lexemes_tail_eq h)
  · exact alike_refuse rfl _ _

section Steps

variable {inner : ℕ → List Token → Reading}

/-- A name is read alike with what follows it. -/
theorem alike_readName (hinner : Placeless inner) (name : String) (token token' : Token)
    (h : lexemes ts = lexemes us) :
    Alike SameReading (readName inner v name token ts) (readName inner v name token' us) := by
  unfold readName
  split
  · exact .ok ⟨rfl, h⟩
  · split
    · next function _ =>
      rw [lexeme_peek_eq h]
      split
      · refine (hinner 0 _ _ (lexemes_tail_eq h)).bind ?_
        rintro ⟨argument, rest⟩ ⟨argument', rest'⟩ ⟨hargument, hrest⟩
        dsimp only
        rw [lexeme_peek_eq hrest]
        split
        · exact .ok ⟨congrArg (Skeleton.call function) hargument, lexemes_tail_eq hrest⟩
        · exact alike_refuse rfl _ _
      · exact alike_refuse rfl _ _
    · exact .ok ⟨rfl, h⟩
    · exact alike_refuse rfl _ _

/-- What is enclosed is read alike. -/
theorem Placeless.enclosed (hinner : Placeless inner) (h : lexemes ts = lexemes us)
    (close : Lexeme) (wrap wrap' : Expr Numeral → Token → Expr Numeral)
    (hwrap : ∀ e e' token token', e.skeleton = e'.skeleton →
      (wrap e token).skeleton = (wrap' e' token').skeleton) :
    Alike SameReading
      (do
        let (e, tokens) ← inner 0 ts
        let (token, tokens) ← expect close tokens
        .ok (wrap e token, tokens) : Reading)
      (do
        let (e, tokens) ← inner 0 us
        let (token, tokens) ← expect close tokens
        .ok (wrap' e token, tokens) : Reading) := by
  refine (hinner 0 _ _ h).bind ?_
  rintro ⟨e, rest⟩ ⟨e', rest'⟩ ⟨he, hrest⟩
  refine (alike_expect close hrest).bind ?_
  rintro ⟨token, behind⟩ ⟨token', behind'⟩ hbehind
  exact .ok ⟨hwrap e e' token token' he, hbehind⟩

/-- An operand is read alike. -/
theorem alike_readOperand (hinner : Placeless inner) (h : lexemes ts = lexemes us) :
    Alike SameReading (readOperand inner v ts) (readOperand inner v us) := by
  have htail := lexemes_tail_eq h
  unfold readOperand
  dsimp only
  rw [lexeme_peek_eq h]
  split
  · exact .ok ⟨rfl, htail⟩
  · exact alike_readName hinner _ _ _ htail
  · exact hinner.enclosed htail .closing (fun e _ => e) (fun e _ => e) fun _ _ _ _ he => he
  · exact hinner.enclosed htail .bar
      (fun e close => .call .abs e ((peek ts).span.hull close.span))
      (fun e close => .call .abs e ((peek us).span.hull close.span))
      fun _ _ _ _ he => congrArg (Skeleton.call .abs) he
  · refine (hinner signStrength _ _ htail).bind ?_
    rintro ⟨e, rest⟩ ⟨e', rest'⟩ ⟨he, hrest⟩
    exact .ok ⟨congrArg Skeleton.negation he, hrest⟩
  · exact hinner signStrength _ _ htail
  · exact alike_refuse rfl _ _

/-- Operators behind operands of one skeleton are read alike. -/
theorem alike_readOperators (hinner : Placeless inner) (least room : ℕ) {left left' : Expr Numeral}
    (hleft : left.skeleton = left'.skeleton) (h : lexemes ts = lexemes us) :
    Alike SameReading (readOperators inner least room left ts)
      (readOperators inner least room left' us) := by
  induction room generalizing left left' ts us with
  | zero =>
    unfold readOperators
    rw [lexeme_peek_eq h]
    split
    · exact .ok ⟨hleft, h⟩
    · split
      · exact .ok ⟨hleft, h⟩
      · exact alike_refuse rfl _ _
  | succ room ih =>
    unfold readOperators
    rw [lexeme_peek_eq h]
    split
    · exact .ok ⟨hleft, h⟩
    · next operator _ =>
      split
      · exact .ok ⟨hleft, h⟩
      · refine (hinner _ _ _ (lexemes_tail_eq h)).bind ?_
        rintro ⟨right, rest⟩ ⟨right', rest'⟩ ⟨hright, hrest⟩
        have hboth : Skeleton.binary operator left.skeleton right.skeleton =
            .binary operator left'.skeleton right'.skeleton := by rw [hleft, hright]
        exact ih hboth hrest

end Steps

/-- Lists of tokens with the same lexemes are read alike. -/
theorem alike_read (v : String) (room : ℕ) : Placeless (read v room) := by
  induction room with
  | zero =>
    intro least ts us h
    exact alike_refuse rfl _ _
  | succ room ih =>
    intro least ts us h
    unfold read
    refine (alike_readOperand ih h).bind ?_
    rintro ⟨left, rest⟩ ⟨left', rest'⟩ ⟨hleft, hrest⟩
    exact alike_readOperators ih least room hleft hrest

/-- Complete lists with the same lexemes are the same tree but for places, or refused for the same
cause. -/
theorem alike_ofTokens (v : String) (h : lexemes ts = lexemes us) :
    Alike (fun e f : Expr Numeral => e.skeleton = f.skeleton) (ofTokens v ts) (ofTokens v us) := by
  unfold ofTokens
  rw [lexeme_peek_eq h]
  split
  · exact .error rfl
  · refine (alike_read v nestingLimit 0 ts us h).bind ?_
    rintro ⟨e, rest⟩ ⟨e', rest'⟩ ⟨he, hrest⟩
    dsimp only
    rw [lexeme_peek_eq hrest]
    split
    · exact .ok he
    · exact alike_refuse rfl _ _

end Expr

end CurvePlot
