import CurvePlot.Proofs.Expr.SignMoves
import CurvePlot.Proofs.Formula.RealMeaning
import CurvePlot.Proofs.Formula.WrittenTerms

/-!
# Sources without blanks and with joined signs

The explicit grammar looks at a formula without its blanks and with its signs joined. For the
expression of the same source neither matters, with two exceptions: a blank between two numbers or
two names keeps them apart, and behind an `e` that follows a digit two signs in front of another digit
are joined to one, which makes a power of ten of them. Apart from these, the normalized source has an
expression of the same real values (`Token.Scans.exists_normal`).
-/

namespace CurvePlot

/-! ### Real values of skeletons -/

namespace Skeleton

open Classical in
/-- The real value of the expression at `x`, where every part of it has one. -/
noncomputable def real? (x : ℝ) : Skeleton Numeral → Option ℝ
  | number value => some (Scalar.ofNumeral value)
  | var => some x
  | constant name => some name.value
  | binary operator left right => do
    let a ← left.real? x
    let b ← right.real? x
    if operator.DefinedAt a b then some (operator.apply a b) else none
  | negation operand => do
    let v ← operand.real? x
    some (-v)
  | call function argument => do
    let v ← argument.real? x
    if function.DefinedAt v then some (function.apply v) else none

/-- The value of a product. -/
theorem real?_mul {l r : Skeleton Numeral} {x a b : ℝ} (hl : l.real? x = some a)
    (hr : r.real? x = some b) : (binary .mul l r).real? x = some (a * b) := by
  simp [real?, hl, hr, Operator.DefinedAt, Operator.apply]

/-- Moves of minus signs do not change the value. -/
theorem Alike.real?_eq {s t : Skeleton Numeral} (h : s.Alike t) (x : ℝ) :
    s.real? x = t.real? x := by
  induction h with
  | refl s => rfl
  | symm _ ih => exact ih.symm
  | trans _ _ ihst ihtu => exact ihst.trans ihtu
  | binary o _ _ ihl ihr => simp only [Skeleton.real?, ihl, ihr]
  | negation _ ih => simp only [Skeleton.real?, ih]
  | call f _ ih => simp only [Skeleton.real?, ih]
  | negation_negation s => cases hs : s.real? x <;> simp [Skeleton.real?, hs]
  | add_negation l r | sub_negation l r =>
    cases hl : l.real? x <;> cases hr : r.real? x <;>
      simp [Skeleton.real?, hl, hr, Operator.DefinedAt, Operator.apply, sub_eq_add_neg]
  | mul_negation l r =>
    cases hl : l.real? x <;> cases hr : r.real? x <;>
      simp [Skeleton.real?, hl, hr, Operator.DefinedAt, Operator.apply]
  | div_negation l r =>
    cases hl : l.real? x with
    | none => simp [Skeleton.real?, hl]
    | some a =>
      cases hr : r.real? x with
      | none => simp [Skeleton.real?, hl, hr]
      | some b =>
        by_cases hb : b = 0 <;>
          simp [Skeleton.real?, hl, hr, hb, Operator.DefinedAt, Operator.apply, neg_div]

end Skeleton

/-- Where the parts stand does not matter for the value. -/
theorem Expr.real?_eq_skeleton (x : ℝ) (e : Expr Numeral) :
    e.real? x = e.skeleton.real? x := by
  induction e with
  | number value _ => rfl
  | var _ => rfl
  | constant name _ => rfl
  | binary operator left right _ ihl ihr => simp [Expr.real?, Expr.skeleton, Skeleton.real?, ihl, ihr]
  | negation operand _ ih => simp [Expr.real?, Expr.skeleton, Skeleton.real?, ih]
  | call function argument _ ih => simp [Expr.real?, Expr.skeleton, Skeleton.real?, ih]

/-! ### Signs behind the mark of a power -/

namespace Signs

/-- Whether a mark, two or more signs and a digit stand at the head of the text. -/
def runsAfterMark : List Char → Bool
  | mark :: a :: b :: rest =>
    (mark == 'e' || mark == 'E') && isSign a && isSign b &&
      (rest.dropWhile isSign).head?.any Text.isAsciiDigit
  | _ => false

/-- Whether two or more signs and a digit stand behind an `e` that follows a digit or a point. Joined
to one, the signs are that of a power of ten. -/
def runsInPower : List Char → Bool
  | [] => false
  | c :: rest => (Text.isAsciiDigit c || c == '.') && runsAfterMark rest || runsInPower rest

variable {c : Char} {text rest : List Char}

/-- A mark and two signs stand at the head of such a text. -/
theorem exists_of_runsAfterMark (h : runsAfterMark text = true) :
    ∃ mark a b tail, text = mark :: a :: b :: tail ∧ (mark = 'e' ∨ mark = 'E') ∧
      isSign a = true ∧ isSign b = true := by
  unfold runsAfterMark at h
  split at h
  · simp only [Bool.and_eq_true, Bool.or_eq_true, beq_iff_eq, and_assoc] at h
    exact ⟨_, _, _, _, rfl, h.1, h.2.1, h.2.2.1⟩
  · cases h

/-- What holds of a text holds of its ends. -/
theorem runsInPower_of_append (front : List Char) (h : runsInPower (front ++ rest) = false) :
    runsInPower rest = false := by
  induction front with
  | nil => exact h
  | cons c front ih =>
    rw [List.cons_append, runsInPower, Bool.or_eq_false_iff] at h
    exact ih h.2

/-- A text begins as before, or with a sign. -/
theorem head_joined (h : c ∈ (joined text).head?) : c ∈ text.head? ∨ isSign c = true := by
  cases text with
  | nil => cases h
  | cons d rest =>
    cases hd : isSign d with
    | false =>
      rw [joined_cons_of_not_isSign hd] at h
      exact Or.inl h
    | true =>
      rw [joined] at h
      cases hrest : joined rest with
      | nil => rw [hrest] at h; exact Or.inl h
      | cons b tail =>
        rw [hrest, attach] at h
        split at h
        · cases h
          exact Or.inr (isSign_merge d b)
        · exact Or.inl h

/-- A blank is no sign. -/
theorem isSign_of_isBlank (h : Text.isBlank c = true) : isSign c = false := by
  rw [Bool.eq_false_iff]
  intro hc
  rcases isSign_iff.mp hc with rfl | rfl <;> cases h

/-- Neither is a character of a name. -/
theorem isSign_of_isNameChar (h : Text.isNameChar c = true) : isSign c = false := by
  rw [Bool.eq_false_iff]
  intro hc
  rcases isSign_iff.mp hc with rfl | rfl <;> exact absurd h (by decide)

/-- Neither is the mark of a power. -/
theorem isSign_of_mark (h : c = 'e' ∨ c = 'E') : isSign c = false := by
  rcases h with rfl | rfl <;> rfl

/-- A sign in front is a sign in front when signs are joined. -/
theorem exists_sign_joined (hc : isSign c = true) (rest : List Char) :
    ∃ d tail, joined (c :: rest) = d :: tail ∧ isSign d = true := by
  rw [joined]
  cases joined rest with
  | nil => exact ⟨c, [], rfl, hc⟩
  | cons d tail =>
    rw [attach]
    split
    · exact ⟨_, tail, rfl, isSign_merge c d⟩
    · exact ⟨c, d :: tail, rfl, hc⟩

/-- Behind the sign that a row of signs is joined to, what was behind the row follows. -/
theorem head_splitSign_joined (hc : isSign c = true) (rest : List Char) :
    (splitSign (joined (c :: rest))).2.head? = (rest.dropWhile isSign).head? := by
  have hsplit : ∀ {d : Char}, isSign d = true → ∀ tail, (splitSign (d :: tail)).2 = tail := by
    intro d hd tail
    have hyes : (d == '+' || d == '-') = true := hd
    rw [splitSign, if_pos hyes]
  induction rest generalizing c with
  | nil => rw [joined, joined, attach, hsplit hc, List.dropWhile_nil]
  | cons d tail ih =>
    cases hd : isSign d with
    | false =>
      rw [joined, joined_cons_of_not_isSign hd, attach_eq_cons (by simp [hd]), hsplit hc,
        List.dropWhile_cons_of_neg (by simp [hd]), List.head?_cons, List.head?_cons]
    | true =>
      have htail := ih hd
      obtain ⟨e, behind, hjoined, he⟩ := exists_sign_joined hd tail
      have hboth : (isSign c && isSign e) = true := by rw [hc, he, Bool.and_self]
      rw [hjoined, hsplit he] at htail
      rw [joined, hjoined, attach, if_pos hboth, hsplit (isSign_merge c e),
        List.dropWhile_cons_of_pos hd, htail]

/-- Behind a mark no digit follows the optional sign that did not do so before, unless there are two
signs and a digit. -/
theorem not_digit_of_joined {mark : Char} (hmark : mark = 'e' ∨ mark = 'E')
    (hrun : runsAfterMark (mark :: rest) = false)
    (h : ∀ c ∈ (splitSign rest).2.head?, Text.isAsciiDigit c = false) :
    ∀ c ∈ (splitSign (joined rest)).2.head?, Text.isAsciiDigit c = false := by
  cases rest with
  | nil => exact h
  | cons c tail =>
    cases hc : isSign c with
    | false =>
      have hno : (c == '+' || c == '-') = false := hc
      simpa [joined_cons_of_not_isSign hc, splitSign, hno] using h
    | true =>
      have hyes : (c == '+' || c == '-') = true := hc
      rw [head_splitSign_joined hc]
      rw [splitSign, if_pos hyes] at h
      cases tail with
      | nil => exact h
      | cons d tail =>
        cases hd : isSign d with
        | false => rwa [List.dropWhile_cons_of_neg (by simp [hd])]
        | true =>
          have hm : (mark == 'e' || mark == 'E') = true := by simpa using hmark
          have hnone : (tail.dropWhile isSign).head?.any Text.isAsciiDigit = false := by
            simpa [runsAfterMark, hm, hc, hd] using hrun
          rw [List.dropWhile_cons_of_pos hd]
          intro digit hdigit
          rw [Option.mem_def.mp hdigit] at hnone
          exact hnone

/-- Where no mark stands before a sign when the signs are joined, no row of them stands behind one. -/
theorem runsInPower_of_isChain_joined
    (h : (joined text).IsChain fun c d => (c = 'e' ∨ c = 'E') → isSign d = false) :
    runsInPower text = false := by
  induction text with
  | nil => rfl
  | cons c rest ih =>
    have hrest : (joined rest).IsChain fun c d => (c = 'e' ∨ c = 'E') → isSign d = false := by
      rw [joined] at h
      cases hjoined : joined rest with
      | nil => exact .nil
      | cons d tail =>
        rw [hjoined, attach] at h
        split at h
        · next hboth =>
          have hd := (Bool.and_eq_true_iff.mp hboth).2
          refine List.isChain_cons.mpr ⟨fun _ _ hmark => ?_, (List.isChain_cons.mp h).2⟩
          rw [isSign_of_mark hmark] at hd
          cases hd
        · exact (List.isChain_cons.mp h).2
    rw [runsInPower, Bool.or_eq_false_iff, Bool.and_eq_false_iff]
    refine ⟨Or.inr ?_, ih hrest⟩
    -- The two signs would be one sign behind the mark.
    rw [Bool.eq_false_iff]
    intro hruns
    obtain ⟨mark, a, b, tail, rfl, hmark, ha, -⟩ := exists_of_runsAfterMark hruns
    obtain ⟨d, behind, hjoined, hd⟩ := exists_sign_joined ha (b :: tail)
    rw [joined_cons_of_not_isSign (isSign_of_mark hmark), hjoined, List.isChain_cons_cons] at hrest
    rw [hrest.1 hmark] at hd
    cases hd

end Signs

namespace Token

open Signs

variable {text rest : List Char} {ls : List Lexeme}

/-- The two signs are lexemes, and joined as characters they are joined as lexemes. -/
theorem ofSign?_of_isSign {c : Char} (h : isSign c = true) :
    ∃ l, Lexeme.ofSign? c = some l ∧ l.IsSign := by
  rcases isSign_iff.mp h with rfl | rfl
  · exact ⟨.plus, rfl, Or.inl rfl⟩
  · exact ⟨.minus, rfl, Or.inr rfl⟩

theorem ofSign?_merge {c d : Char} {a b : Lexeme} (hc : isSign c = true) (hd : isSign d = true)
    (ha : Lexeme.ofSign? c = some a) (hb : Lexeme.ofSign? d = some b) :
    Lexeme.ofSign? (merge c d) = some (Lexeme.merge a b) := by
  rcases isSign_iff.mp hc with rfl | rfl <;> rcases isSign_iff.mp hd with rfl | rfl <;>
    cases ha <;> cases hb <;> rfl

/-- A literal ends as before when the signs behind it are joined. -/
theorem ends_joined {literal : Literal} (hl : literal.WellFormed Text.isAsciiDigit)
    (hrun : runsInPower (literal.text ++ rest) = false)
    (hends : literal.Ends Text.isAsciiDigit rest) :
    literal.Ends Text.isAsciiDigit (joined rest) := by
  refine ⟨fun c hc => ?_, fun hfraction hpower c hc => ?_, fun hpower => ?_⟩
  · rcases head_joined hc with hc | hc
    · exact hends.notDigit c hc
    · rcases isSign_iff.mp hc with rfl | rfl <;> rfl
  · rcases head_joined hc with hc | hc
    · exact hends.notPoint hfraction hpower c hc
    · rcases isSign_iff.mp hc with rfl | rfl <;> decide
  · cases rest with
    | nil => rfl
    | cons mark tail =>
      by_cases hmark : mark = 'e' ∨ mark = 'E'
      · have hbehind : runsAfterMark (mark :: tail) = false := by
          obtain ⟨front, c, htext, hc⟩ := Literal.exists_last_text hl
          rw [htext, List.append_assoc, List.singleton_append] at hrun
          have hlast := runsInPower_of_append front hrun
          have hbefore : (Text.isAsciiDigit c || c == '.') = true := by simpa using hc
          rw [runsInPower, hbefore, Bool.true_and, Bool.or_eq_false_iff] at hlast
          exact hlast.1
        have hdigits := (Literal.scanPower_mark_cons hmark).mp (hends.notPower hpower)
        rw [joined_cons_of_not_isSign (isSign_of_mark hmark), Literal.scanPower_mark_cons hmark]
        exact not_digit_of_joined hmark hbehind hdigits
      · -- What stands in front now is the old character or a sign, and neither is a mark.
        cases hjoined : joined (mark :: tail) with
        | nil => rfl
        | cons d behind =>
          have hd : ¬(d = 'e' ∨ d = 'E') := by
            rcases head_joined (c := d) (by rw [hjoined]; rfl) with hd | hd
            · cases hd
              exact hmark
            · rcases isSign_iff.mp hd with rfl | rfl <;> decide
          simp [Literal.scanPower, hd]

/-- Joining the signs of a text joins the signs of its lexemes. -/
theorem Scans.joined (h : Scans text ls) (hrun : runsInPower text = false) :
    ∃ ms, Scans (Signs.joined text) ms ∧ Lexeme.JoinsSigns ls ms := by
  induction h with
  | nil => exact ⟨[], .nil, .nil⟩
  | @blank c rest ls hc _ ih =>
    obtain ⟨ms, hms, hjoins⟩ := ih (runsInPower_of_append [c] hrun)
    exact ⟨ms, by rw [joined_cons_of_not_isSign (isSign_of_isBlank hc)]; exact .blank hc hms, hjoins⟩
  | @word l word rest ls hword _ ih =>
    obtain ⟨ms, hms, hjoins⟩ := ih (runsInPower_of_append word hrun)
    rcases hword.cases with ⟨c, rfl, hc⟩ | ⟨literal, rfl, rfl, hl, hends, hpoint⟩ |
      ⟨rfl, hne, hname, hrest⟩
    · cases hsign : isSign c with
      | false =>
        rw [List.singleton_append, joined_cons_of_not_isSign hsign]
        exact ⟨_, .word (heads_sign hc _) hms, .keep l hjoins⟩
      | true =>
        rw [List.singleton_append, Signs.joined]
        cases hrest : Signs.joined rest with
        | nil =>
          rw [hrest] at hms
          exact ⟨_, .word (heads_sign hc _) hms, .keep l hjoins⟩
        | cons d tail =>
          rw [hrest] at hms
          rw [attach]
          split
          · next hboth =>
            obtain ⟨-, hd⟩ := Bool.and_eq_true_iff.mp hboth
            obtain ⟨b, hb, hbsign⟩ := ofSign?_of_isSign hd
            obtain ⟨a, ha, hasign⟩ := ofSign?_of_isSign hsign
            obtain ⟨os, rfl, hos⟩ := hms.of_cons hb
            rw [hc, Option.some.injEq] at ha
            subst ha
            exact ⟨_, .word (heads_sign (ofSign?_merge hsign hd hc hb) _) hos,
              .join hasign hbsign hjoins⟩
          · exact ⟨_, .word (heads_sign hc _) hms, .keep l hjoins⟩
    · have hlast := fun c hc => Literal.isSign_of_mem_getLast? hl (c := c) hc
      rw [joined_append (Literal.settled_text hl) hlast]
      have hbehind : OnePoint literal (Signs.joined rest) := by
        intro hwhole hpower c hc
        rcases head_joined hc with hc | hc
        · exact hpoint hwhole hpower c hc
        · rcases isSign_iff.mp hc with rfl | rfl <;> decide
      exact ⟨_, .word (heads_number hl (ends_joined hl hrun hends) hbehind) hms, .keep _ hjoins⟩
    · have hsigns : ∀ c ∈ word, isSign c = false := fun c hc => isSign_of_isNameChar (hname c hc)
      have hlast : ∀ c ∈ word.getLast?, isSign c = false :=
        fun c hc => hsigns c (List.mem_of_mem_getLast? hc)
      rw [joined_append (settled_of_not_isSign hsigns) hlast]
      have hbehind : ∀ c ∈ (Signs.joined rest).head?, Text.isNameChar c = false := by
        intro c hc
        rcases head_joined hc with hc | hc
        · exact hrest c hc
        · rcases isSign_iff.mp hc with rfl | rfl <;> decide
      exact ⟨_, .word (heads_name hne hname hbehind) hms, .keep _ hjoins⟩

end Token

/-! ### Sources -/

/-- The lexemes of a text, if it is scanned. -/
def Lexeme.ofText? (text : List Char) : Option (List Lexeme) :=
  (Token.scan 0 text).toOption.map lexemes

/-- Whether a text is scanned as the same lexemes without its blanks: no blank keeps two numbers or
two names apart. -/
def Lexeme.BlanksIdle (text : List Char) : Prop :=
  ofText? (Text.compact text) = ofText? text

/-- They are the row that the text is scanned as. -/
theorem Lexeme.ofText?_eq_some {text : List Char} {ls : List Lexeme} :
    ofText? text = some ls ↔ Token.Scans text ls := by
  unfold ofText?
  constructor
  · intro h
    obtain ⟨tokens, htokens, rfl⟩ := Option.map_eq_some_iff.mp h
    exact Token.scans_of_scan (eq_ok_of_toOption htokens)
  · intro h
    obtain ⟨tokens, hscan, rfl⟩ := h.exists_scan 0
    rw [hscan]
    rfl

/-- Where no blank keeps lexemes apart and no signs are joined to that of a power of ten, the normalized
source is derived as an expression with the same real values. -/
theorem Token.Scans.exists_normal {source : List Char} {ls : List Lexeme} {t : Skeleton Numeral}
    (h : Scans source ls) (hderives : Grammar.Derives variableName .expr (Lexeme.withProducts ls) t)
    (hblanks : Lexeme.BlanksIdle source)
    (hrun : Signs.runsInPower (Text.compact source) = false) :
    ∃ ms s, Scans (Signs.normalize source) ms ∧
      Grammar.Derives variableName .expr (Lexeme.withProducts ms) s ∧
      ∀ x, s.real? x = t.real? x := by
  have hcompact : Scans (Text.compact source) ls := by
    rw [← Lexeme.ofText?_eq_some, hblanks, Lexeme.ofText?_eq_some]
    exact h
  obtain ⟨ms, hms, hjoins⟩ := hcompact.joined hrun
  obtain ⟨s, hs, halike⟩ := hderives.joinsSigns hjoins.withProducts
  refine ⟨ms, s, ?_, hs, fun x => (halike.real?_eq x).symm⟩
  rw [Signs.normalize, Signs.collapse_eq_joined]
  exact hms

/-- Two expressions of a text, however they were read, have the same real values. -/
theorem Token.Scans.real?_eq {source : List Char} {ls : List Lexeme} {t : Skeleton Numeral}
    (h : Scans source ls) (hderives : Grammar.Derives variableName .expr (Lexeme.withProducts ls) t)
    {e : Expression} (he : Expression.ofText source = .ok e) (x : ℝ) :
    t.real? x = e.tree.real? x := by
  obtain ⟨ms, hms, hother⟩ := Expression.exists_scans he
  rw [hms.unique h] at hother
  rw [Expr.real?_eq_skeleton, hderives.unique hother]

end CurvePlot
