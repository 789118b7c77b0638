import CurvePlot.Proofs.Formula.FactorExpression

/-!
# Sums of terms as expressions

A row of terms, each but the first with a sign in front, is scanned as the lexemes of its terms
(`Terms.scans_texts`), which the grammar derives as a sum (`Terms.exists_derives`). The real value
of the sum is the sum of the terms' values, and so is that of the polynomial with the collected
factors (`Terms.valueAt_foldl_add`).
-/

namespace CurvePlot

open Grammar

/-! ### Lexemes of terms -/

/-- The exponent of the square. -/
def Literal.two : Literal :=
  ⟨['2'], none, none⟩

/-- The lexemes of a symbol. -/
def Monomial.lexemes : Monomial → List Lexeme
  | square => [.name variableName, .caret, .number .two]
  | x => [.name variableName]
  | y => [.name "y"]
  | one => []

namespace Term

/-- The lexemes of the term as written. -/
def lexemes (t : Term) : List Lexeme :=
  t.factor.lexemes ++ t.monomial.lexemes

/-- The lexemes of the term with the star between number and symbol. -/
def products (t : Term) : List Lexeme :=
  if t.monomial = .one then t.factor.lexemes else t.factor.products ++ t.monomial.lexemes

/-- A term as an expression in one variable may hold it. -/
structure Plain (t : Term) : Prop where
  /-- The factor is plain. -/
  factor : t.factor.Plain
  /-- The symbol is no other variable. -/
  monomial : t.monomial ≠ .y
  /-- Without a symbol there is a number, and no star behind it. -/
  number : t.monomial = .one → t.factor.star = false ∧ t.factor.literal ≠ none

variable {t : Term} {rest : List Char} {ls : List Lexeme}

/-- A number ends before a sign, and before the end. -/
theorem endsBefore_of_isSign (hrest : ∀ c ∈ rest.head?, Signs.isSign c = true) :
    Literal.EndsBefore Text.isAsciiDigit rest := by
  intro c hc
  rcases Signs.isSign_iff.mp (hrest c hc) with rfl | rfl <;> decide

/-- A symbol is scanned as its lexemes before a sign or the end. -/
theorem scans_symbol (m : Monomial) (hrest : ∀ c ∈ rest.head?, Signs.isSign c = true)
    (h : Token.Scans rest ls) : Token.Scans (m.symbol ++ rest) (m.lexemes ++ ls) := by
  have hname : ∀ c ∈ rest.head?, Text.isNameChar c = false := by
    intro c hc
    rcases Signs.isSign_iff.mp (hrest c hc) with rfl | rfl <;> decide
  cases m with
  | square =>
    have htwo : Token.Heads (.number .two) ['2'] rest := by
      have hl : Literal.two.WellFormed Text.isAsciiDigit :=
        ⟨by simpa [Literal.two] using by decide, by simp [Literal.two],
          by simp [Literal.digits, Literal.two], by simp [Literal.two]⟩
      have hbefore := endsBefore_of_isSign hrest
      exact Token.heads_number hl (hbefore.ends _) fun _ _ c hc => (hbefore c hc).2.1
    have hcaret : Token.Scans ('^' :: '2' :: rest) (.caret :: .number .two :: ls) :=
      .word (Token.heads_sign rfl _) (.word htwo h)
    have hvariable : Token.Heads (.name variableName) ['x'] ('^' :: '2' :: rest) :=
      Token.heads_name (by simp) (by simpa using by decide) (by simpa using by decide)
    have hsquare := Token.Scans.word hvariable hcaret
    exact hsquare
  | x => exact .word (Token.heads_name (by simp) (by simpa using by decide) hname) h
  | y => exact .word (Token.heads_name (by simp) (by simpa using by decide) hname) h
  | one => exact h

/-- A term is scanned as its lexemes before a sign or the end. -/
theorem scans_text_append (ht : t.factor.Ascii)
    (hrest : ∀ c ∈ rest.head?, Signs.isSign c = true) (h : Token.Scans rest ls) :
    Token.Scans (t.text ++ rest) (t.lexemes ++ ls) := by
  have hbefore : Literal.EndsBefore Text.isAsciiDigit (t.monomial.symbol ++ rest) := by
    intro c hc
    cases hm : t.monomial with
    | one =>
      rw [hm] at hc
      exact endsBefore_of_isSign hrest c hc
    | square | x | y =>
      rw [hm] at hc
      cases hc
      decide
  rw [text, lexemes, List.append_assoc, List.append_assoc]
  exact Factor.scans_text_append ht (fun _ l _ => hbefore.ends l)
    (fun _ c hc => (hbefore c hc).2.1) (scans_symbol t.monomial hrest h)

/-- The unwritten star of a term stands between its number and its symbol. -/
theorem withProducts_lexemes (hone : t.monomial = .one → t.factor.star = false) :
    Lexeme.withProducts t.lexemes = t.products := by
  rw [lexemes, products]
  cases hm : t.monomial with
  | one =>
    have hnumber : Lexeme.withProducts (t.factor.literal.toList.map .number) =
        t.factor.literal.toList.map .number := by
      cases t.factor.literal <;> rfl
    simp only [Monomial.lexemes, List.append_nil, if_true, Factor.lexemes, hone hm]
    cases t.factor.sign with
    | none => simpa using hnumber
    | some c =>
      simp [Lexeme.withProducts_cons_left (Factor.isSign_signLexeme c).operandFree.1, hnumber]
  | square | x | y => exact Factor.withProducts_lexemes_append _ _ _

end Term

/-! ### Values of terms -/

/-- The value of a symbol at `x`; the other variable does not occur in a polynomial. -/
def Monomial.valueAt (x : ℝ) : Monomial → ℝ
  | square => x * x
  | .x => x
  | y => 0
  | one => 1

/-- The real value of a term at `x`. -/
noncomputable def Term.valueAt (x : ℝ) (t : Term) : ℝ :=
  t.factor.value * t.monomial.valueAt x

/-- The real value of the polynomial with the collected factors at `x`. -/
def Terms.valueAt (x : ℝ) (sums : Terms ℝ) : ℝ :=
  sums.square * x * x + sums.x * x + sums.constant

/-- One more term adds its value. -/
theorem Terms.valueAt_add (x : ℝ) (sums : Terms ℝ) (t : Term) :
    (sums.add t).valueAt x = sums.valueAt x + t.valueAt x := by
  rw [add, Term.valueAt]
  cases t.monomial <;> simp only [valueAt, Monomial.valueAt] <;> ring

/-- Collecting terms adds up their values. -/
theorem Terms.valueAt_foldl_add (x : ℝ) (sums : Terms ℝ) (ts : List Term) :
    (ts.foldl add sums).valueAt x = sums.valueAt x + (ts.map (Term.valueAt x)).sum := by
  induction ts generalizing sums with
  | nil => simp
  | cons t ts ih =>
    rw [List.foldl_cons, ih, valueAt_add, List.map_cons, List.sum_cons]
    ring

/-! ### Terms as expressions -/

namespace Term

variable {t : Term} {ls : List Lexeme} {s : Skeleton Numeral} {x v : ℝ}

/-- A square has a value everywhere. -/
theorem real?_square (x : ℝ) :
    (Skeleton.binary .pow .var (.number ⟨2, 0⟩)).real? x = some (x * x) := by
  have htwo : (Scalar.ofNumeral ⟨2, 0⟩ : ℝ) = 2 := by simp [Scalar.ofNumeral, Numeral.value]
  have hdefined : Operator.DefinedAt x 2 .pow := by
    rcases lt_trichotomy x 0 with hx | hx | hx
    · exact Or.inr (Or.inr ⟨hx, 2, by norm_num⟩)
    · exact Or.inr (Or.inl ⟨hx, by norm_num⟩)
    · exact Or.inl hx
  simp [Skeleton.real?, htwo, hdefined, Operator.apply, Scalar.pow, sq]

/-- A symbol of the variable is a power, with its value. -/
theorem exists_derives_symbol {m : Monomial} (hone : m ≠ .one) (hy : m ≠ .y) (x : ℝ) :
    ∃ s, Derives variableName .power m.lexemes s ∧ s.real? x = some (m.valueAt x) := by
  cases m with
  | square =>
    have hexponent : Derives variableName .unary [.number .two] (.number ⟨2, 0⟩) :=
      .ofPower (.ofAtom (.number Literal.two))
    exact ⟨_, .power .var hexponent, real?_square x⟩
  | x => exact ⟨_, .ofAtom .var, rfl⟩
  | y => exact absurd rfl hy
  | one => exact absurd rfl hone

/-- A plain term is derived as one, with its value. -/
theorem Plain.exists_derives (ht : t.Plain) (x : ℝ) :
    ∃ s, Derives variableName .term t.products s ∧ s.real? x = some (t.valueAt x) := by
  by_cases hone : t.monomial = .one
  · obtain ⟨hstar, hsome⟩ := ht.number hone
    obtain ⟨l, hl⟩ := Option.ne_none_iff_exists'.mp hsome
    have hrow : t.products = t.factor.sign.toList.map Factor.signLexeme ++ [.number l] := by
      simp [products, hone, Factor.lexemes, hl, hstar]
    have hvalue : t.valueAt x = Factor.signed t.factor.sign (Scalar.ofNumeral l.numeral) := by
      have hplain := Literal.isPlain_of_wellFormed (ht.factor.literal l hl)
      simp [valueAt, hone, Monomial.valueAt, Factor.value, Factor.magnitude, hl, hplain]
    rw [hrow, hvalue]
    exact ⟨_, .ofUnary (Factor.derives_signed t.factor.sign (.ofPower (.ofAtom (.number l)))),
      Factor.real?_signedSkeleton t.factor.sign rfl⟩
  · obtain ⟨s, hs, hv⟩ := exists_derives_symbol hone ht.monomial x
    rw [products, if_neg hone]
    exact ⟨_, Factor.derives_products ht.factor hs, Factor.real?_applied ht.factor hv⟩

/-- The term without its sign. -/
def unsigned (t : Term) : Term :=
  ⟨⟨none, t.factor.literal, t.factor.star⟩, t.monomial⟩

/-- It is plain if the term is. -/
theorem Plain.unsigned (ht : t.Plain) : t.unsigned.Plain :=
  ⟨⟨⟨by simp [Term.unsigned], ht.factor.literal⟩, ht.factor.star⟩, ht.monomial, ht.number⟩

/-- The sign of a term behind others is an operator. -/
theorem Plain.exists_derives_append (ht : t.Plain) (hsign : t.factor.sign ≠ none)
    (hs : Derives variableName .expr ls s) (hv : s.real? x = some v) :
    ∃ s', Derives variableName .expr (ls ++ t.products) s' ∧
      s'.real? x = some (v + t.valueAt x) := by
  obtain ⟨c, hc⟩ := Option.ne_none_iff_exists'.mp hsign
  obtain ⟨r, hr, hrv⟩ := ht.unsigned.exists_derives x
  have hrow : t.products = Factor.signLexeme c :: t.unsigned.products := by
    by_cases hone : t.monomial = .one <;>
      simp [products, hone, Factor.lexemes, Factor.products, hc, Term.unsigned]
  have hvalue : t.valueAt x = Factor.signed (some c) (t.unsigned.valueAt x) := by
    by_cases hminus : c = '-' <;>
      simp [valueAt, Term.unsigned, Factor.value, Factor.signed, Factor.magnitude, hc, hminus]
  rw [hrow, hvalue]
  by_cases hminus : c = '-'
  · refine ⟨.binary .sub s r, ?_, ?_⟩
    · have hsum := Derives.sum (Or.inr rfl) hs hr
      simpa [Factor.signLexeme, hminus, Operator.lexeme] using hsum
    · simp [Skeleton.real?, hv, hrv, Operator.DefinedAt, Operator.apply, Factor.signed, hminus,
        sub_eq_add_neg]
  · refine ⟨.binary .add s r, ?_, ?_⟩
    · have hsum := Derives.sum (Or.inl rfl) hs hr
      simpa [Factor.signLexeme, hminus, Operator.lexeme] using hsum
    · simp [Skeleton.real?, hv, hrv, Operator.DefinedAt, Operator.apply, Factor.signed, hminus]

end Term

/-- Plain terms with signs continue an expression to a sum. -/
theorem Terms.exists_derives_append {ls : List Lexeme} {s : Skeleton Numeral} {x v : ℝ}
    {ts : List Term} (hts : ∀ t ∈ ts, t.Plain ∧ t.factor.sign ≠ none)
    (hs : Derives variableName .expr ls s) (hv : s.real? x = some v) :
    ∃ s', Derives variableName .expr (ls ++ ts.flatMap Term.products) s' ∧
      s'.real? x = some (v + (ts.map (Term.valueAt x)).sum) := by
  induction ts generalizing ls s v with
  | nil => exact ⟨s, by simpa using hs, by simpa using hv⟩
  | cons t ts ih =>
    obtain ⟨ht, hsign⟩ := hts t (by simp)
    obtain ⟨s', hs', hv'⟩ := ht.exists_derives_append hsign hs hv
    obtain ⟨u, hu, huv⟩ := ih (fun t ht => hts t (by simp [ht])) hs' hv'
    refine ⟨u, by simpa using hu, ?_⟩
    rw [huv, List.map_cons, List.sum_cons, add_assoc]

/-- A row of plain terms, each but the first with a sign, is derived as their sum. -/
theorem Terms.exists_derives {t : Term} {ts : List Term} (ht : t.Plain)
    (hts : ∀ u ∈ ts, u.Plain ∧ u.factor.sign ≠ none) (x : ℝ) :
    ∃ s, Derives variableName .expr ((t :: ts).flatMap Term.products) s ∧
      s.real? x = some (((t :: ts).map (Term.valueAt x)).sum) := by
  obtain ⟨s, hs, hv⟩ := ht.exists_derives x
  obtain ⟨u, hu, huv⟩ := exists_derives_append hts (.ofTerm hs) hv
  exact ⟨u, by simpa using hu, by simpa using huv⟩

/-! ### Rows of terms -/

/-- Terms with signs begin with a sign, as texts and as lexemes. -/
theorem Terms.head_texts {ts : List Term}
    (hts : ∀ t ∈ ts, t.factor.Ascii ∧ t.factor.sign ≠ none) :
    (∀ c ∈ (ts.flatMap Term.text).head?, Signs.isSign c = true) ∧
      ∀ l ∈ (ts.flatMap Term.lexemes).head?, l.beginsFactor = false := by
  cases ts with
  | nil => simp
  | cons t ts =>
    obtain ⟨ht, hsign⟩ := hts t (by simp)
    obtain ⟨c, hc⟩ := Option.ne_none_iff_exists'.mp hsign
    refine ⟨?_, ?_⟩
    · simpa [Term.text, Factor.text, hc] using Signs.isSign_iff.mpr (ht.sign c hc)
    · simpa [Term.lexemes, Factor.lexemes, hc] using (Factor.isSign_signLexeme c).operandFree.2

/-- A row of terms, each but the first with a sign, is scanned as the lexemes of its terms. -/
theorem Terms.scans_texts {t : Term} {ts : List Term} (ht : t.factor.Ascii)
    (hts : ∀ u ∈ ts, u.factor.Ascii ∧ u.factor.sign ≠ none) :
    Token.Scans ((t :: ts).flatMap Term.text) ((t :: ts).flatMap Term.lexemes) := by
  induction ts generalizing t with
  | nil =>
    exact Term.scans_text_append ht (by simp) .nil
  | cons u us ih =>
    have hrest := ih (hts u (by simp)).1 fun u hu => hts u (by simp [hu])
    exact Term.scans_text_append ht (head_texts hts).1 hrest

/-- The unwritten stars stand within the terms. -/
theorem Terms.withProducts_lexemes {t : Term} {ts : List Term}
    (hone : ∀ u ∈ t :: ts, u.monomial = .one → u.factor.star = false)
    (hts : ∀ u ∈ ts, u.factor.Ascii ∧ u.factor.sign ≠ none) :
    Lexeme.withProducts ((t :: ts).flatMap Term.lexemes) = (t :: ts).flatMap Term.products := by
  induction ts generalizing t with
  | nil => simpa using Term.withProducts_lexemes (hone t (by simp))
  | cons u us ih =>
    have hrest := ih (fun u hu => hone u (List.mem_cons_of_mem t hu)) fun u hu => hts u (by simp [hu])
    rw [List.flatMap_cons, Lexeme.withProducts_append (head_texts hts).2, hrest,
      Term.withProducts_lexemes (hone t (by simp))]
    rfl

end CurvePlot
