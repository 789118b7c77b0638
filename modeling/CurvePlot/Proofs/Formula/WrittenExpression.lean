import CurvePlot.Proofs.Expr.TreeHeight
import CurvePlot.Proofs.Formula.CollapsedSource
import CurvePlot.Proofs.Formula.FactorExpression

/-!
# Expressions as they are written

Signed numbers, the variable, calls, products and sums are put together to texts without
parentheses around operands. `Writes` keeps account of the level of such a text, of its skeleton,
and of how deep it may be nested; below the limit it is accepted as an expression of that skeleton
(`Writes.exists_ofText`).

The doubles are computed with each part checked. But a sum and a product are finite only if both
operands are (`Skeleton.double?_strict`), so over these it is enough to check the whole.
-/

namespace CurvePlot

open Grammar

/-! ### Numbers with a sign -/

/-- A sign is applied as its lexeme says. -/
theorem Factor.signed_signLexeme (c : Char) (t : Skeleton Numeral) :
    Lexeme.signed (signLexeme c) t = signedSkeleton (some c) t := by
  by_cases hc : c = '-' <;> simp [signedSkeleton, Lexeme.signed, signLexeme, hc]

/-- A number as written, perhaps behind a sign. -/
structure SignedLiteral where
  /-- The sign, if there is one. -/
  sign : Option Char
  /-- The number behind it. -/
  literal : Literal
deriving DecidableEq, Repr

namespace SignedLiteral

/-- The number with its sign. -/
def text (p : SignedLiteral) : List Char :=
  p.sign.toList ++ p.literal.text

/-- The number that is meant. -/
def value (p : SignedLiteral) : Float :=
  if p.sign == some '-' then -p.literal.toFloat else p.literal.toFloat

/-- The number as an operand. -/
def skeleton (p : SignedLiteral) : Skeleton Numeral :=
  Factor.signedSkeleton p.sign (.number p.literal.numeral)

/-- The lexemes of the number. -/
def lexemes (p : SignedLiteral) : List Lexeme :=
  p.sign.toList.map Factor.signLexeme ++ [.number p.literal]

/-- A literal of ASCII digits behind no sign but a plus or a minus. -/
structure Ascii (p : SignedLiteral) : Prop where
  /-- A written sign is one of the two signs. -/
  sign : ∀ c ∈ p.sign, c = '+' ∨ c = '-'
  /-- The literal is one of ASCII digits. -/
  literal : p.literal.WellFormed Text.isAsciiDigit

/-- A literal of ASCII digits with a finite value, and no sign but a plus or a minus. -/
structure WellFormed (p : SignedLiteral) : Prop where
  /-- A written sign is one of the two signs. -/
  sign : ∀ c ∈ p.sign, c = '+' ∨ c = '-'
  /-- The literal is one of ASCII digits. -/
  literal : p.literal.WellFormed Text.isAsciiDigit
  /-- Its value is finite. -/
  finite : p.literal.toFloat.isFinite = true

variable {p : SignedLiteral}

/-- A finite value is not part of the spelling. -/
theorem WellFormed.ascii (hp : p.WellFormed) : p.Ascii :=
  ⟨hp.sign, hp.literal⟩

/-- What stands in a signed number. -/
theorem mem_text (hp : p.Ascii) {c : Char} (h : c ∈ p.text) :
    Text.isAsciiDigit c = true ∨ c ∈ ['.', 'e', 'E', '+', '-'] := by
  rcases List.mem_append.mp h with h | h
  · rcases hp.sign c (Option.mem_toList.mp h) with rfl | rfl <;> exact Or.inr (by simp)
  · exact Literal.mem_text hp.literal h

/-- A signed number is not empty. -/
theorem text_ne_nil (hp : p.WellFormed) : p.text ≠ [] := by
  have hliteral := Literal.text_ne_nil hp.literal
  simp [text, hliteral]

/-- Its value is finite. -/
theorem isFinite_value (hp : p.WellFormed) : p.value.isFinite = true := by
  unfold value
  split
  · exact (Double.value_neg hp.finite).1
  · exact hp.finite

/-- As an operand it has this value everywhere, if the value is finite. -/
theorem double?_skeleton (p : SignedLiteral) (x : Float) :
    p.skeleton.double? x = Double.finite? p.value := by
  unfold skeleton value Factor.signedSkeleton
  split
  · exact (Double.finite?_neg _).symm
  · rfl

end SignedLiteral

/-! ### Texts of expressions -/

/-- At an operator between two rows, the unwritten stars on its sides are put in apart. -/
theorem Lexeme.withProducts_operator {o : Lexeme} (hbegins : o.beginsFactor = false)
    (hends : o.endsOperand = false) (ls rs : List Lexeme) :
    withProducts (ls ++ o :: rs) = withProducts ls ++ o :: withProducts rs := by
  rw [withProducts_append (by rintro l ⟨⟩; exact hbegins), withProducts_cons_left hends]

/-- Whether a text is an expression of a level with this skeleton, and nested at most so deep. -/
inductive Writes : Level → ℕ → List Char → Skeleton Numeral → Prop
  /-- A number, perhaps with a sign. -/
  | number {p : SignedLiteral} (hp : p.Ascii) : Writes .unary 1 p.text p.skeleton
  /-- The variable. -/
  | var : Writes .atom 0 ['x'] .var
  /-- A call. -/
  | call (f : NamedFunction) {n : ℕ} {text : List Char} {t : Skeleton Numeral}
    (argument : Writes .expr n text t) :
    Writes .atom (n + 1) (f.name.toList ++ '(' :: (text ++ [')'])) (.call f t)
  /-- A product. -/
  | product {n m : ℕ} {left right : List Char} {l r : Skeleton Numeral}
    (hl : Writes .term n left l) (hr : Writes .unary m right r) :
    Writes .term (max n m + 1) (left ++ '*' :: right) (.binary .mul l r)
  /-- A sum. -/
  | sum {n m : ℕ} {left right : List Char} {l r : Skeleton Numeral}
    (hl : Writes .expr n left l) (hr : Writes .term m right r) :
    Writes .expr (max n m + 1) (left ++ '+' :: right) (.binary .add l r)
  /-- An expression of a level is one of every higher level. -/
  | lift {low high : Level} {n : ℕ} {text : List Char} {t : Skeleton Numeral}
    (hle : low.rank ≤ high.rank) (h : Writes low n text t) : Writes high n text t

/-- Whether an operand may end in front of a text: the text is empty, or it begins with an operator
or a closing parenthesis. -/
def Breaks (rest : List Char) : Prop :=
  ∀ c ∈ rest.head?, c ∈ ['+', '*', ')']

/-- A class of characters without these three does not go on there. -/
theorem Breaks.head_of_class {rest : List Char} (h : Breaks rest) {p : Char → Bool}
    (hp : (['+', '*', ')'].all p) = true) : ∀ c ∈ rest.head?, p c = true :=
  fun c hc => List.all_eq_true.mp hp c (h c hc)

/-- Whether a text is scanned as these lexemes in front of whatever an operand may end before. -/
def ScansBefore (text : List Char) (ls : List Lexeme) : Prop :=
  ∀ {rest : List Char} {ms : List Lexeme}, Breaks rest → Token.Scans rest ms →
    Token.Scans (text ++ rest) (ls ++ ms)

namespace ScansBefore

variable {text left right : List Char} {ls rs : List Lexeme}

/-- A signed number is scanned as its lexemes. -/
theorem signedLiteral {p : SignedLiteral} (hp : p.Ascii) : ScansBefore p.text p.lexemes := by
  intro rest ms hrest h
  have hends : Literal.EndsBefore Text.isAsciiDigit rest := by
    intro c hc
    simpa [and_assoc] using hrest.head_of_class
      (p := fun c => !Text.isAsciiDigit c && c != '.' && c != 'e' && c != 'E') (by decide) c hc
  have hfactor : Factor.Ascii ⟨p.sign, some p.literal, false⟩ :=
    ⟨hp.sign, by rintro l ⟨⟩; exact hp.literal⟩
  have hscans := Factor.scans_text_append hfactor (fun _ l _ => hends.ends l)
    (fun _ c hc => (hends c hc).2.1) h
  simpa [Factor.text, Factor.literalText, Factor.starText, Factor.lexemes, SignedLiteral.text,
    SignedLiteral.lexemes] using hscans

/-- The variable is scanned as its name. -/
theorem var : ScansBefore ['x'] [.name variableName] := by
  intro rest ms hrest h
  refine Expression.scans_variable h fun c hc => ?_
  simpa using hrest.head_of_class (p := fun c => !Text.isNameChar c) (by decide) c hc

/-- Two operands are scanned apart at the operator between them. -/
theorem operator {c : Char} {o : Lexeme} (ho : Lexeme.ofSign? c = some o)
    (hc : c ∈ ['+', '*', ')']) (hl : ScansBefore left ls) (hr : ScansBefore right rs) :
    ScansBefore (left ++ c :: right) (ls ++ o :: rs) := by
  intro rest ms hrest h
  have hright := Expression.scans_sign ho (hr hrest h)
  have hbreaks : Breaks (c :: (right ++ rest)) := by
    rintro d ⟨⟩
    exact hc
  simpa using hl hbreaks hright

/-- A call is scanned as the name, the parentheses and the argument between them. -/
theorem call (f : NamedFunction) (h : ScansBefore text ls) :
    ScansBefore (f.name.toList ++ '(' :: (text ++ [')']))
      (.name f.name :: .opening :: (ls ++ [.closing])) := by
  intro rest ms _ hscans
  have hbreaks : Breaks (')' :: rest) := by
    rintro c ⟨⟩
    simp
  have hbehind := Expression.scans_sign (c := '(') rfl
    (h hbreaks (Expression.scans_sign (c := ')') rfl hscans))
  have hname : f.name.toList ≠ [] ∧ f.name.toList.all Text.isNameChar = true := by
    cases f <;> decide +kernel
  have hopening : ∀ c ∈ ('(' :: (text ++ ')' :: rest)).head?, Text.isNameChar c = false := by
    rintro c ⟨⟩
    decide
  have hword := Token.heads_name hname.1 (List.all_eq_true.mp hname.2) hopening
  rw [String.ofList_toList] at hword
  simpa using Token.Scans.word hword hbehind

end ScansBefore

namespace Writes

variable {level : Level} {n : ℕ} {text : List Char} {t : Skeleton Numeral}

/-- Such a text is visible, and no colon stands in it. -/
theorem isGraphic_of_mem (h : Writes level n text t) :
    ∀ c ∈ text, Text.isGraphic c = true ∧ c ≠ ':' := by
  have hclass : ∀ word : List Char, (word.all fun c => Text.isGraphic c && c != ':') = true →
      ∀ c ∈ word, Text.isGraphic c = true ∧ c ≠ ':' := fun _ hall c hc => by
    simpa using List.all_eq_true.mp hall c hc
  have hsigns := hclass ['.', 'e', 'E', '+', '-', '*', '(', ')', 'x'] (by decide)
  induction h with
  | number hp =>
    intro c hc
    rcases SignedLiteral.mem_text hp hc with hdigit | hother
    · exact ⟨Text.isGraphic_of_digit hdigit, by rintro rfl; exact absurd hdigit (by decide)⟩
    · exact hsigns c (List.mem_append_left ['*', '(', ')', 'x'] hother)
  | var => exact fun c hc => hsigns c (by simp_all)
  | call f _ ih =>
    have hname := hclass f.name.toList (by cases f <;> decide +kernel)
    intro c hc
    simp only [List.mem_append, List.mem_cons, List.not_mem_nil, or_false] at hc
    rcases hc with hc | rfl | hc | rfl
    · exact hname c hc
    · exact hsigns _ (by simp)
    · exact ih c hc
    · exact hsigns _ (by simp)
  | product _ _ ihl ihr | sum _ _ ihl ihr =>
    intro c hc
    simp only [List.mem_append, List.mem_cons] at hc
    rcases hc with hc | rfl | hc
    · exact ihl c hc
    · exact hsigns _ (by simp)
    · exact ihr c hc
  | lift _ _ ih => exact ih

/-- It is scanned as a row of lexemes into which no star has to be put, and the row is an expression
of the level and the skeleton. -/
theorem exists_lexemes (h : Writes level n text t) :
    ∃ ls, ScansBefore text ls ∧ Lexeme.withProducts ls = ls ∧
      NestsWithin variableName level n n ls t := by
  -- One bound serves for the chain and for the depth: an operator adds one to the greater bound of
  -- its operands.
  induction h with
  | @number p hp =>
    refine ⟨p.lexemes, ScansBefore.signedLiteral hp, ?_, ?_⟩
    · cases hsign : p.sign with
      | none => simp [SignedLiteral.lexemes, hsign, Lexeme.withProducts]
      | some c =>
        have hfree := (Factor.isSign_signLexeme c).operandFree.1
        simp [SignedLiteral.lexemes, hsign, Lexeme.withProducts_cons_left hfree,
          Lexeme.withProducts]
    · have hnumber : NestsWithin variableName .unary 0 0 [.number p.literal]
          (.number p.literal.numeral) :=
        ⟨0, 0, le_rfl, le_rfl, .lift (by decide) (.number p.literal)⟩
      cases hsign : p.sign with
      | none =>
        simpa [SignedLiteral.lexemes, SignedLiteral.skeleton, Factor.signedSkeleton, hsign] using
          hnumber.mono zero_le_one zero_le_one
      | some c =>
        have hsigned := hnumber.sign_cons (Factor.isSign_signLexeme c)
        rw [Factor.signed_signLexeme] at hsigned
        simpa [SignedLiteral.lexemes, SignedLiteral.skeleton, hsign] using
          hsigned.mono zero_le_one le_rfl
  | var =>
    exact ⟨[.name variableName], ScansBefore.var, rfl, 0, 0, le_rfl, le_rfl, .var⟩
  | @call f n text t _ ih =>
    obtain ⟨ls, hscans, hproducts, c, d, -, hd, hnests⟩ := ih
    refine ⟨_, hscans.call f, ?_, 0, d + 1, by omega, by omega,
      .call (by cases f <;> decide) (NamedFunction.ofName?_name f) hnests⟩
    have hcall : Token.impliesProduct (.name f.name) .opening = false := by
      cases f <;> decide
    rw [Lexeme.withProducts, if_neg (by simp [hcall]), Lexeme.withProducts_cons_left rfl,
      Lexeme.withProducts_append (by rintro l ⟨⟩; rfl), hproducts]
    rfl
  | product _ _ ihl ihr =>
    obtain ⟨ls, hscansl, hproductsl, hl⟩ := ihl
    obtain ⟨rs, hscansr, hproductsr, hr⟩ := ihr
    refine ⟨ls ++ .star :: rs, hscansl.operator rfl (by simp) hscansr, ?_, ?_⟩
    · rw [Lexeme.withProducts_operator rfl rfl, hproductsl, hproductsr]
    · exact (NestsWithin.binary (o := .mul) hl hr).mono (by omega) (by omega)
  | sum _ _ ihl ihr =>
    obtain ⟨ls, hscansl, hproductsl, hl⟩ := ihl
    obtain ⟨rs, hscansr, hproductsr, hr⟩ := ihr
    refine ⟨ls ++ .plus :: rs, hscansl.operator rfl (by simp) hscansr, ?_, ?_⟩
    · rw [Lexeme.withProducts_operator rfl rfl, hproductsl, hproductsr]
    · exact (NestsWithin.binary (o := .add) hl hr).mono (by omega) (by omega)
  | lift hle _ ih =>
    obtain ⟨ls, hscans, hproducts, c, d, hc, hd, hnests⟩ := ih
    exact ⟨ls, hscans, hproducts, c, d, hc, hd, hnests.lift hle⟩

/-- Below the limit it is accepted as an expression of the skeleton. -/
theorem exists_ofText (h : Writes .expr n text t) (hn : n < nestingLimit) :
    ∃ e, Expression.ofText text = .ok e ∧ e.tree.skeleton = t := by
  obtain ⟨ls, hscans, hproducts, c, d, -, hd, hnests⟩ := h.exists_lexemes
  have hrow : Token.Scans (text ++ []) (ls ++ []) := hscans (by simp [Breaks]) .nil
  rw [List.append_nil, List.append_nil] at hrow
  rw [← hproducts] at hnests
  rcases Expression.ofText_of_nests hrow hnests with ⟨-, he⟩ | ⟨hdeep, -⟩
  · exact he
  · omega

end Writes

/-! ### Doubles of sums, products and calls -/

namespace Skeleton

variable {l r t : Skeleton Numeral} {x a b : Float}

/-- An operation that is finite with finite operands alone needs no check of them. -/
theorem double?_strict {o : Operator} (ho : o ≠ .div)
    (hstrict : (o.apply a b).isFinite = true → a.isFinite = true ∧ b.isFinite = true)
    (hl : l.double? x = Double.finite? a) (hr : r.double? x = Double.finite? b) :
    (binary o l r).double? x = Double.finite? (o.apply a b) := by
  by_cases hboth : a.isFinite = true ∧ b.isFinite = true
  · rw [Double.finite?_of_isFinite hboth.1] at hl
    rw [Double.finite?_of_isFinite hboth.2] at hr
    exact double?_binary_of_ne_div ho hl hr
  · -- An operand that is not finite has no double, and leaves the operation none either.
    have hnone : Double.finite? (o.apply a b) = none := if_neg (mt hstrict hboth)
    rw [hnone, double?, hl, hr]
    rcases not_and_or.mp hboth with ha | hb
    · have hnone : Double.finite? a = none := if_neg ha
      rw [hnone]
      rfl
    · have hnone : Double.finite? b = none := if_neg hb
      rw [hnone]
      cases Double.finite? a <;> rfl

/-- So it is with a sum. -/
theorem double?_add (hl : l.double? x = Double.finite? a) (hr : r.double? x = Double.finite? b) :
    (binary .add l r).double? x = Double.finite? (a + b) :=
  double?_strict (by decide) Double.isFinite_of_add hl hr

/-- So it is with a product. -/
theorem double?_mul (hl : l.double? x = Double.finite? a) (hr : r.double? x = Double.finite? b) :
    (binary .mul l r).double? x = Double.finite? (a * b) :=
  double?_strict (by decide) Double.isFinite_of_mul hl hr

/-- So it is with a function that has no finite value where its argument is not finite. -/
theorem double?_call {f : NamedFunction}
    (hstrict : a.isFinite = false → (f.apply a).isFinite = false)
    (h : t.double? x = Double.finite? a) :
    (call f t).double? x = Double.finite? (f.apply a) := by
  rw [double?, h]
  cases ha : a.isFinite with
  | true =>
    rw [Double.finite?_of_isFinite ha]
    rfl
  | false =>
    have hnone : Double.finite? (f.apply a) = none := if_neg (by simp [hstrict ha])
    have hargument : Double.finite? a = none := if_neg (by simp [ha])
    rw [hnone, hargument]
    rfl

end Skeleton

end CurvePlot
