import CurvePlot.Proofs.Formula.JoinedSource

/-!
# Written factors as parts of expressions

Where a formula writes a factor, the expression of the same text has a sign, a number and a star,
the star being put in if it is not written. Before a power this is derived as a product with it
(`Factor.derives_products`), and its real value is the factor's value times that of the power
(`Factor.real?_applied`).

A factor may be scanned with digits of other scripts or with a star but no number; in the source of
an expression neither occurs (`Expression.isAsciiDigit_of_mem`, `Grammar.Derives.closes_of_star`).
-/

namespace CurvePlot

/-! ### Stars in derived rows -/

namespace Grammar

variable {v : String} {level : Level} {ls : List Lexeme} {t : Skeleton Numeral}

/-- No expression begins with a star. -/
theorem Derives.head_ne_star (h : Derives v level ls t) : ∀ l ∈ ls.head?, l ≠ .star := by
  induction h with
  | number _ | var | constant _ _ _ | call _ _ _ _ | parentheses _ _ | bars _ _ | minus _ _
  | plus _ _ => simp
  | ofAtom _ ih | ofPower _ ih | ofUnary _ ih | ofTerm _ ih => exact ih
  | power hl _ ihl _ | product _ hl _ ihl _ | sum _ hl _ ihl _ =>
    rwa [List.head?_append_of_ne_nil _ hl.ne_nil]

/-- Whether every star stands behind what may end an operand. -/
def StarsBehindOperands (ls : List Lexeme) : Prop :=
  ls.IsChain fun a b => b = .star → a.Closes

/-- It holds around an operator if it holds on both sides. -/
theorem Derives.starsBehindOperands_append {low : Level} {rs : List Lexeme}
    {s : Skeleton Numeral} (hl : Derives v level ls t) (hr : Derives v low rs s) (l : Lexeme)
    (hls : StarsBehindOperands ls) (hrs : StarsBehindOperands rs) :
    StarsBehindOperands (ls ++ l :: rs) := by
  rw [StarsBehindOperands, List.isChain_append, List.isChain_cons]
  exact ⟨hls, ⟨fun b hb hstar => absurd hstar (hr.head_ne_star b hb), hrs⟩,
    fun a ha _ _ _ => hl.closes_of_getLast? a ha⟩

/-- It holds behind another lexeme. -/
theorem Derives.starsBehindOperands_cons (h : Derives v level ls t) (l : Lexeme)
    (hls : StarsBehindOperands ls) : StarsBehindOperands (l :: ls) := by
  rw [StarsBehindOperands, List.isChain_cons]
  exact ⟨fun b hb hstar => absurd hstar (h.head_ne_star b hb), hls⟩

/-- It holds between two lexemes that enclose an expression. -/
theorem Derives.starsBehindOperands_enclosed (h : Derives v level ls t) {l r : Lexeme}
    (hr : r ≠ .star) (hls : StarsBehindOperands ls) :
    StarsBehindOperands (l :: (ls ++ [r])) := by
  rw [← List.cons_append, StarsBehindOperands, List.isChain_append]
  exact ⟨h.starsBehindOperands_cons l hls, .singleton r,
    fun _ _ b hb hstar => absurd ((Option.some.inj hb).trans hstar) hr⟩

/-- In an expression every star stands behind an operand. -/
theorem Derives.starsBehindOperands (h : Derives v level ls t) : StarsBehindOperands ls := by
  induction h with
  | number _ | var | constant _ _ _ => exact .singleton _
  | call _ _ h ih =>
    rw [StarsBehindOperands, List.isChain_cons]
    exact ⟨by simp, h.starsBehindOperands_enclosed (by simp) ih⟩
  | parentheses h ih | bars h ih => exact h.starsBehindOperands_enclosed (by simp) ih
  | ofAtom _ ih | ofPower _ ih | ofUnary _ ih | ofTerm _ ih => exact ih
  | power hl hr ihl ihr | product _ hl hr ihl ihr | sum _ hl hr ihl ihr =>
    exact hl.starsBehindOperands_append hr _ ihl ihr
  | minus h ih | plus h ih => exact h.starsBehindOperands_cons _ ih

/-- What stands in front of a star may end an operand. -/
theorem Derives.closes_of_star {front rest : List Lexeme}
    (h : Derives v level (front ++ .star :: rest) t) : ∃ l ∈ front.getLast?, l.Closes := by
  rcases List.eq_nil_or_concat' front with rfl | ⟨front, l, rfl⟩
  · exact absurd rfl (h.head_ne_star .star rfl)
  · rw [List.append_assoc, List.singleton_append] at h
    exact ⟨l, by simp, 
      List.isChain_iff_forall_rel_of_append_cons_cons.mp h.starsBehindOperands rfl rfl⟩

end Grammar

/-- In the source of an expression every digit is an ASCII digit. -/
theorem Expression.isAsciiDigit_of_mem {source : List Char} {e : Expression}
    (h : ofText source = .ok e) {c : Char} (hc : c ∈ source)
    (hdigit : Text.isDecimalDigit c = true) : Text.isAsciiDigit c = true := by
  obtain ⟨tokens, htokens, hderives⟩ := exists_derives h
  rcases Token.mem_source_cases htokens hc with
    hblank | ⟨l, hsign⟩ | ⟨literal, hwell, hmem⟩ | ⟨name, hname, hmem, -⟩
  · rw [Text.not_isBlank_of_isDecimalDigit hdigit] at hblank
    cases hblank
  · rw [Lexeme.ofSign?_of_class (p := Text.isDecimalDigit) (by decide +kernel) hdigit] at hsign
    cases hsign
  · rcases Literal.mem_text hwell hmem with hascii | hother
    · exact hascii
    · rw [Literal.isDigitClass_isDecimalDigit c hother] at hdigit
      cases hdigit
  · have hnames : (knownNames.all fun name =>
        name.toList.all fun c => !Text.isDecimalDigit c) = true := by decide +kernel
    have hknown := List.all_eq_true.mp hnames name (hderives.mem_knownNames hname)
    have hno := List.all_eq_true.mp hknown c hmem
    rw [hdigit] at hno
    cases hno

/-! ### Factors -/

/-- A literal whose digits all belong to a class is one over that class. -/
theorem Literal.WellFormed.narrow {digit narrower : Char → Bool} {l : Literal}
    (h : l.WellFormed digit) (hdigits : ∀ c ∈ l.text, digit c = true → narrower c = true) :
    l.WellFormed narrower := by
  refine ⟨fun c hc => hdigits c ?_ (h.whole c hc), fun digits hd c hc => hdigits c ?_
    (h.fraction digits hd c hc), h.nonempty, fun p hp => ⟨(h.power p hp).mark, (h.power p hp).sign,
      (h.power p hp).nonempty, fun c hc => hdigits c ?_ ((h.power p hp).digits c hc)⟩⟩
  · simp [text, hc]
  · rw [Option.mem_def] at hd
    simp [text, hd, fractionText, hc]
  · rw [Option.mem_def] at hp
    simp [text, hp, powerText, Power.text, hc]

namespace Factor

open Grammar

/-- The lexeme of a sign. -/
def signLexeme (c : Char) : Lexeme :=
  if c == '-' then .minus else .plus

/-- The lexemes of the factor as written. -/
def lexemes (f : Factor) : List Lexeme :=
  f.sign.toList.map signLexeme ++
    (f.literal.toList.map .number ++ if f.star then [.star] else [])

/-- The lexemes of the factor with a star behind its number, written or not. -/
def products (f : Factor) : List Lexeme :=
  f.sign.toList.map signLexeme ++
    (f.literal.toList.map .number ++ if f.star || f.literal.isSome then [.star] else [])

/-- An expression with the optional sign in front. -/
def signedSkeleton (sign : Option Char) (t : Skeleton Numeral) : Skeleton Numeral :=
  if sign == some '-' then .negation t else t

/-- An expression with the factor in front. -/
def applied (f : Factor) (t : Skeleton Numeral) : Skeleton Numeral :=
  match f.literal with
  | some l => .binary .mul (signedSkeleton f.sign (.number l.numeral)) t
  | none => signedSkeleton f.sign t

/-- A factor that is scanned off a text whose digits are ASCII digits. -/
structure Ascii (f : Factor) : Prop where
  /-- A written sign is one of the two signs. -/
  sign : ∀ c ∈ f.sign, c = '+' ∨ c = '-'
  /-- A written number is a literal with ASCII digits. -/
  literal : ∀ l ∈ f.literal, l.WellFormed Text.isAsciiDigit

/-- A factor as an expression may hold it: its star stands behind a number. -/
structure Plain (f : Factor) : Prop extends f.Ascii where
  /-- Without a number there is no star. -/
  star : f.literal = none → f.star = false

variable {f : Factor} {rest : List Char} {ls : List Lexeme} {t : Skeleton Numeral} {v : String}

/-- The lexeme of a sign is one. -/
theorem isSign_signLexeme (c : Char) : (signLexeme c).IsSign := by
  unfold signLexeme
  split
  · exact Or.inr rfl
  · exact Or.inl rfl

/-- The two signs are scanned as their lexemes. -/
theorem ofSign?_eq_signLexeme {c : Char} (hc : c = '+' ∨ c = '-') :
    Lexeme.ofSign? c = some (signLexeme c) := by
  rcases hc with rfl | rfl <;> rfl

/-- A factor is scanned as its lexemes before what its number ends before. -/
theorem scans_text_append (hf : f.Ascii)
    (hends : f.star = false → ∀ l ∈ f.literal, l.Ends Text.isAsciiDigit rest)
    (hpoint : f.star = false → ∀ c ∈ rest.head?, c ≠ '.') (h : Token.Scans rest ls) :
    Token.Scans (f.text ++ rest) (f.lexemes ++ ls) := by
  have hstar : Token.Scans (starText f.star ++ rest) ((if f.star then [.star] else []) ++ ls) := by
    cases f.star with
    | true => exact .word (Token.heads_sign rfl rest) h
    | false => exact h
  have hnumber : Token.Scans (literalText f.literal ++ (starText f.star ++ rest))
      (f.literal.toList.map .number ++ ((if f.star then [.star] else []) ++ ls)) := by
    cases hl : f.literal with
    | none => exact hstar
    | some l =>
      refine .word (Token.heads_number (hf.literal l hl) ?_ ?_) hstar
      · cases hs : f.star with
        | true =>
          have hbefore : Literal.EndsBefore Text.isAsciiDigit (starText true ++ rest) := by
            intro c hc
            cases hc
            decide
          exact hbefore.ends l
        | false => exact hends hs l hl
      · intro _ _ c hc
        cases hs : f.star with
        | true =>
          rw [hs] at hc
          cases hc
          decide
        | false => exact hpoint hs c (by rwa [hs] at hc)
  rw [text, lexemes, List.append_assoc, List.append_assoc, List.append_assoc, List.append_assoc]
  cases hs : f.sign with
  | none => exact hnumber
  | some c => exact .word (Token.heads_sign (ofSign?_eq_signLexeme (hf.sign c hs)) _) hnumber

/-- Before a name the unwritten star behind the number is put in. -/
theorem withProducts_lexemes_append (f : Factor) (name : String) (ls : List Lexeme) :
    Lexeme.withProducts (f.lexemes ++ .name name :: ls) =
      f.products ++ Lexeme.withProducts (.name name :: ls) := by
  have hunsigned : Lexeme.withProducts (f.literal.toList.map .number ++
      ((if f.star then [.star] else []) ++ .name name :: ls)) =
      f.literal.toList.map .number ++ ((if f.star || f.literal.isSome then [.star] else []) ++
        Lexeme.withProducts (.name name :: ls)) := by
    cases f.literal <;> cases f.star <;>
      simp [Lexeme.withProducts, Token.impliesProduct, Lexeme.endsOperand, Lexeme.beginsFactor,
        Token.opensCall]
  rw [lexemes, products, List.append_assoc, List.append_assoc, List.append_assoc,
    List.append_assoc, ← hunsigned]
  cases f.sign with
  | none => rfl
  | some c => exact Lexeme.withProducts_cons_left (isSign_signLexeme c).operandFree.1 _

/-- Where an operand has to begin, a star behind the sign or alone makes no expression. -/
theorem star_of_derives {level : Level} (front : List Lexeme) {behind : List Lexeme}
    (h : Derives v level (front ++ (f.products ++ behind)) t)
    (hfront : f.sign = none → ∀ l ∈ front.getLast?, ¬l.Closes) :
    f.literal = none → f.star = false := by
  intro hl
  by_contra hno
  have hs : f.star = true := by simpa using hno
  have hrow : front ++ (f.products ++ behind) =
      (front ++ f.sign.toList.map signLexeme) ++ .star :: behind := by
    simp [products, hl, hs]
  rw [hrow] at h
  obtain ⟨l, hmem, hcloses⟩ := h.closes_of_star
  cases hsign : f.sign with
  | none =>
    rw [hsign] at hmem
    exact hfront hsign l (by simpa using hmem) hcloses
  | some c =>
    rw [hsign] at hmem
    have hlast : l = signLexeme c := by simpa [eq_comm] using hmem
    rcases hcloses with hends | hbar
    · rw [hlast, (isSign_signLexeme c).operandFree.1] at hends
      cases hends
    · rcases isSign_signLexeme c with hc | hc <;> rw [hlast, hc] at hbar <;> cases hbar

/-- An operand with the optional sign in front is an operand. -/
theorem derives_signed (sign : Option Char) (h : Derives v .unary ls t) :
    Derives v .unary (sign.toList.map signLexeme ++ ls) (signedSkeleton sign t) := by
  cases sign with
  | none => exact h
  | some c =>
    have hsame : signedSkeleton (some c) t = Lexeme.signed (signLexeme c) t := by
      by_cases hc : c = '-' <;> simp [signedSkeleton, Lexeme.signed, signLexeme, hc]
    rw [hsame]
    exact h.sign_cons (isSign_signLexeme c)

/-- Its value has that sign. -/
theorem real?_signedSkeleton (sign : Option Char) {x a : ℝ} (h : t.real? x = some a) :
    (signedSkeleton sign t).real? x = some (signed sign a) := by
  unfold signedSkeleton signed
  split
  · simp [Skeleton.real?, h]
  · exact h

/-- A factor in front of a power makes a term with it. -/
theorem derives_products (hf : f.Plain) (h : Derives v .power ls t) :
    Derives v .term (f.products ++ ls) (f.applied t) := by
  rw [products, applied]
  cases hl : f.literal with
  | none =>
    have hrow : f.sign.toList.map signLexeme ++ ((none : Option Literal).toList.map Lexeme.number ++
        if f.star || (none : Option Literal).isSome then [.star] else []) =
        f.sign.toList.map signLexeme := by
      simp [hf.star hl]
    rw [hrow]
    exact .ofUnary (derives_signed f.sign (.ofPower h))
  | some l =>
    have hnumber : Derives v .unary (f.sign.toList.map signLexeme ++ [.number l])
        (signedSkeleton f.sign (.number l.numeral)) :=
      derives_signed f.sign (.ofPower (.ofAtom (.number l)))
    have hproduct := Derives.product (Or.inl rfl) (.ofUnary hnumber) (.ofPower h)
    simpa [Operator.lexeme] using hproduct

/-- The value of the term is the product of the values. -/
theorem real?_applied (hf : f.Plain) {x a : ℝ} (h : t.real? x = some a) :
    (f.applied t).real? x = some (f.value * a) := by
  rw [applied, value, magnitude]
  cases hl : f.literal with
  | none =>
    have hone : (Scalar.one : ℝ) = 1 := by simp [Scalar.one, Scalar.ofNumeral, Numeral.value]
    rw [real?_signedSkeleton f.sign h, hone, signed, signed]
    split <;> simp
  | some l =>
    have hplain : l.isPlain = true := Literal.isPlain_of_wellFormed (hf.literal l hl)
    have hnumber : (Skeleton.number l.numeral).real? x = some (Scalar.ofNumeral l.numeral) := rfl
    simp only [hplain, if_true]
    exact Skeleton.real?_mul (real?_signedSkeleton f.sign hnumber) h

/-- A factor that is scanned has a sign, and digits of any script. -/
theorem wellFormed_of_scan {powers : Bool} {text symbol : List Char}
    (h : scan powers text = (f, symbol)) : f.WellFormed powers := by
  have hf : f = (scan powers text).1 := by rw [h]
  have hsign : f.sign = (splitSign text).1 := by rw [hf]; rfl
  have hliteral : f.literal = (scanLiteral powers (splitSign text).2).1 := by rw [hf]; rfl
  refine ⟨fun c hc => ?_, fun l hl => ?_, fun hpowers l hl => ?_⟩
  · rw [hsign] at hc
    cases text with
    | nil => cases hc
    | cons d rest =>
      rw [splitSign] at hc
      split at hc
      · next hd =>
        cases hc
        simpa using hd
      · cases hc
  · rw [hliteral, scanLiteral] at hl
    split at hl
    · split at hl
      · next scanned rest hscan =>
        cases hl
        exact Literal.wellFormed_of_scan? hscan
      · cases hl
    · split at hl
      · next whole fraction rest hscan =>
        cases hl
        obtain ⟨hwhole, hfraction, hne⟩ := Literal.digits_of_scanMantissa? hscan
        exact ⟨hwhole, hfraction, hne, fun p hp => by cases hp⟩
      · cases hl
  · rw [hliteral, scanLiteral, hpowers] at hl
    simp only [Bool.false_eq_true, if_false] at hl
    split at hl
    · cases hl
      rfl
    · cases hl

/-- A factor whose digits are ASCII digits, wherever it was scanned. -/
theorem WellFormed.ascii {powers : Bool} (hf : f.WellFormed powers)
    (hdigits : ∀ c ∈ f.text, Text.isDecimalDigit c = true → Text.isAsciiDigit c = true) :
    f.Ascii := by
  refine ⟨hf.sign, fun l hl => (hf.literal l hl).narrow fun c hc hdigit => hdigits c ?_ hdigit⟩
  rw [Option.mem_def] at hl
  simp [text, hl, literalText, hc]

end Factor

/-- In the normal form of the source of an expression, too, every digit is an ASCII digit. -/
theorem Expression.isAsciiDigit_of_mem_normalize {source : List Char} {e : Expression}
    (h : ofText source = .ok e) {c : Char} (hc : c ∈ Signs.normalize source)
    (hdigit : Text.isDecimalDigit c = true) : Text.isAsciiDigit c = true := by
  have hinert := Literal.ne_sign_of_digit Literal.isDigitClass_isDecimalDigit hdigit
  rw [Signs.mem_normalize_iff hinert (Text.not_isBlank_of_isDecimalDigit hdigit)] at hc
  exact isAsciiDigit_of_mem h hc hdigit

end CurvePlot
