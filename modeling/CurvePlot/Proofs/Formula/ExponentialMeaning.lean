import CurvePlot.Proofs.Formula.ExplicitReading
import CurvePlot.Proofs.Formula.FactorExpression

/-!
# What an explicit power of `e` denotes

The explicit grammar reads `a*e^(bx)` with either factor, the stars and the parentheses left out at
will; all that follows the mark is the exponent. In the expression of the same text a power ends
with its first operand, so that `e^2x` is `e^2` times `x` there. `WrittenExponential` is the formula
as it is written, `exists_written` says that every formula read as an exponential is one, and
`read_and_real?_eq` says which function the expression of the same text denotes: the exponential
that is read if the exponent is in parentheses or has no number, else a multiple of `x`.
-/

namespace CurvePlot

/-- A power of `e` as the explicit grammar writes it. -/
structure WrittenExponential where
  /-- The factor in front of the power. -/
  front : Factor
  /-- The letter of the base. -/
  mark : Char
  /-- Whether the exponent is in parentheses. -/
  bracketed : Bool
  /-- The factor of the variable in the exponent. -/
  exponent : Factor
deriving DecidableEq

namespace WrittenExponential

/-- The exponent as written. -/
def power (w : WrittenExponential) : List Char :=
  if w.bracketed then '(' :: (w.exponent.text ++ ['x', ')']) else w.exponent.text ++ ['x']

/-- The whole formula as written. -/
def text (w : WrittenExponential) : List Char :=
  w.front.text ++ w.mark :: '^' :: w.power

/-- The exponential that is read. -/
def curve {α : Type} [Scalar α] (w : WrittenExponential) : Curve α :=
  .exponential w.front.value w.exponent.value

/-- Whether the expression of the same text takes all of the exponent as the exponent: it is in
parentheses, or it is the variable with a sign at most. -/
def Undivided (w : WrittenExponential) : Prop :=
  w.bracketed = true ∨ w.exponent.literal = none

/-- A power of `e` as it is scanned: with factors that have no power of ten. -/
structure WellFormed (w : WrittenExponential) : Prop where
  /-- The factor in front is a factor. -/
  front : w.front.WellFormed false
  /-- The letter is `e`, in either case. -/
  mark : w.mark = 'e' ∨ w.mark = 'E'
  /-- The factor in the exponent is a factor. -/
  exponent : w.exponent.WellFormed false

end WrittenExponential

/-! ### What is read is written -/

/-- A text stands where it is found. -/
theorem Text.prefix_of_position {part text : List Char} {n : ℕ}
    (h : position part text = some n) : part <+: text.drop n := by
  induction text generalizing n with
  | nil =>
    rw [position] at h
    split at h
    · next hpart =>
      rw [List.isEmpty_iff.mp hpart]
      exact List.nil_prefix
    · cases h
  | cons c rest ih =>
    rw [position] at h
    split at h
    · next hprefix =>
      cases h
      exact List.isPrefixOf_iff_prefix.mp hprefix
    · obtain ⟨m, hm, rfl⟩ := Option.map_eq_some_iff.mp h
      exact ih hm

/-- The letter `e` has two spellings. -/
theorem Text.eq_of_toLower_eq_e {c : Char} (h : c.toLower = 'e') : c = 'e' ∨ c = 'E' := by
  by_cases hc : c.isUpper = true
  · have hrange : 0x41 ≤ c.toNat ∧ c.toNat ≤ 0x5A := by
      simpa [Char.isUpper, UInt32.le_iff_toNat_le] using hc
    obtain ⟨n, hn⟩ : ∃ n, n = c.toNat := ⟨_, rfl⟩
    have hcode : c = Char.ofNat n := by rw [hn, Char.ofNat_toNat]
    rw [hcode] at h ⊢
    have hlow : 0x41 ≤ n := by omega
    have hhigh : n ≤ 0x5A := by omega
    clear hcode hn hrange hc
    interval_cases n <;> first | exact Or.inr rfl | exact absurd h (by decide)
  · rw [Char.toLower_eq_of_not_isUpper hc] at h
    exact Or.inl h

/-- At the place of the mark stand its two characters. -/
theorem exists_mark_of_position {right : List Char} {n : ℕ}
    (h : Text.position exponentialMark (Text.lower right) = some n) :
    ∃ mark, (mark = 'e' ∨ mark = 'E') ∧
      right.drop n = mark :: '^' :: right.drop (n + exponentialMark.length) := by
  have hprefix := Text.prefix_of_position h
  have hlower : (Text.lower right).drop n = Text.lower (right.drop n) := by
    rw [Text.lower, Text.lower, List.map_drop]
  have hbehind : right.drop (n + exponentialMark.length) = (right.drop n).drop 2 := by
    rw [List.drop_drop]
    rfl
  rw [hlower] at hprefix
  rw [hbehind]
  cases hdrop : right.drop n with
  | nil => rw [hdrop] at hprefix; exact absurd (List.prefix_nil.mp hprefix) (by simp [exponentialMark])
  | cons c tail =>
    cases tail with
    | nil =>
      rw [hdrop] at hprefix
      exact absurd hprefix.length_le (by simp [exponentialMark, Text.lower])
    | cons d tail =>
      rw [hdrop] at hprefix
      obtain ⟨rest, hrest⟩ := hprefix
      simp only [exponentialMark, Text.lower, List.map_cons, List.cons_append, List.nil_append,
        List.cons.injEq] at hrest
      refine ⟨c, Text.eq_of_toLower_eq_e hrest.1.symm, ?_⟩
      rw [Text.eq_of_toLower_eq hrest.2.1.symm (by decide)]
      rfl

/-- Parentheses around the whole exponent are left away, and nothing else. -/
theorem openExponent?_eq_some {power inner : List Char} (h : openExponent? power = some inner) :
    power = '(' :: (inner ++ [')']) ∨ power = inner := by
  unfold openExponent? at h
  split at h
  · split at h
    · next rest hlast =>
      cases h
      obtain ⟨front, hfront⟩ := List.getLast?_eq_some_iff.mp (beq_iff_eq.mp hlast)
      left
      rw [hfront, List.dropLast_concat]
    · cases h
  · cases h
    exact Or.inr rfl

/-- Where a power of `e` is read, a factor fills the text before the mark, and a factor and the
variable fill the exponent. The factors are read over every carrier. -/
theorem readExponential_eq_ok {α : Type} [Scalar α] {right : List Char} {c : Curve α}
    (h : readExponential right = .ok c) :
    ∃ n front power exponent, Text.position exponentialMark (Text.lower right) = some n ∧
      Factor.scan false (right.take n) = (front, []) ∧
      openExponent? (right.drop (n + exponentialMark.length)) = some power ∧
      Factor.scan false power = (exponent, ['x']) ∧
      ∀ {β : Type} [Scalar β],
        readExponential (α := β) right = .ok (.exponential front.value exponent.value) := by
  unfold readExponential at h
  split at h
  · cases h
  · next n hposition =>
    rcases hfront : Factor.scan false (right.take n) with ⟨front, behind⟩
    rw [hfront] at h
    dsimp only at h
    split at h
    · next power hpower =>
      rcases hexponent : Factor.scan false power with ⟨exponent, symbol⟩
      rw [hexponent] at h
      dsimp only at h
      split at h
      · next hsymbol =>
        rw [beq_iff_eq] at hsymbol
        subst hsymbol
        refine ⟨n, front, power, exponent, hposition, hfront, hpower, hexponent, ?_⟩
        intro β _
        unfold readExponential
        rw [hposition]
        simp only [hfront, hpower, hexponent, beq_self_eq_true, if_true]
      · cases h
    · cases h

namespace WrittenExponential

/-- A right side that is read as a power of `e` is written as one, whose factors are read over every
carrier. -/
theorem exists_written {α : Type} [Scalar α] {right : List Char} {c : Curve α}
    (h : readExponential right = .ok c) :
    ∃ w : WrittenExponential, w.WellFormed ∧ w.text = right ∧
      ∀ {β : Type} [Scalar β], readExponential (α := β) right = .ok w.curve := by
  obtain ⟨n, front, power, exponent, hposition, hfront, hpower, hexponent, hread⟩ :=
    readExponential_eq_ok h
  obtain ⟨mark, hmark, hdrop⟩ := exists_mark_of_position hposition
  have hfrontText : front.text = right.take n := by
    have hscan := Factor.scan_text false (right.take n)
    rwa [hfront, List.append_nil] at hscan
  have hexponentText : exponent.text ++ ['x'] = power := by
    have hscan := Factor.scan_text false power
    rwa [hexponent] at hscan
  rcases openExponent?_eq_some hpower with hbracketed | hbare
  · refine ⟨⟨front, mark, true, exponent⟩, ⟨Factor.wellFormed_of_scan hfront, hmark,
      Factor.wellFormed_of_scan hexponent⟩, ?_, hread⟩
    rw [← List.take_append_drop n right, hdrop, hbracketed, ← hexponentText, ← hfrontText]
    simp [WrittenExponential.text, WrittenExponential.power]
  · refine ⟨⟨front, mark, false, exponent⟩, ⟨Factor.wellFormed_of_scan hfront, hmark,
      Factor.wellFormed_of_scan hexponent⟩, ?_, hread⟩
    rw [← List.take_append_drop n right, hdrop, hbare, ← hexponentText, ← hfrontText]
    simp [WrittenExponential.text, WrittenExponential.power]

/-! ### The expression of the same text -/

open Grammar

variable {w : WrittenExponential} {ls : List Lexeme} {s : Skeleton Numeral} {x : ℝ}

/-- The lexemes behind the mark, where the factor has the lexemes `fs`. -/
def powerLexemes (w : WrittenExponential) (fs : List Lexeme) : List Lexeme :=
  if w.bracketed then .opening :: (fs ++ [.name variableName, .closing])
  else fs ++ [.name variableName]

/-- The lexemes of the whole formula. -/
def lexemes (w : WrittenExponential) : List Lexeme :=
  w.front.lexemes ++
    .name (String.ofList [w.mark]) :: .caret :: w.powerLexemes w.exponent.lexemes

/-- The lexemes of the whole formula with the unwritten stars. -/
def products (w : WrittenExponential) : List Lexeme :=
  w.front.products ++
    .name (String.ofList [w.mark]) :: .caret :: w.powerLexemes w.exponent.products

/-- The digits of both factors are ASCII digits. -/
structure Ascii (w : WrittenExponential) : Prop extends w.WellFormed where
  /-- Those in front. -/
  asciiFront : w.front.Ascii
  /-- Those of the exponent. -/
  asciiExponent : w.exponent.Ascii

/-- The variable behind the factor of the exponent is a word. -/
theorem scans_power (hw : w.Ascii) :
    Token.Scans w.power (w.powerLexemes w.exponent.lexemes) := by
  have hfactor : ∀ {rest : List Char} {ls : List Lexeme}, Token.Scans ('x' :: rest) ls →
      Token.Scans (w.exponent.text ++ 'x' :: rest) (w.exponent.lexemes ++ ls) := by
    intro rest ls h
    have hbefore : Literal.EndsBefore Text.isAsciiDigit ('x' :: rest) := by
      intro c hc
      cases hc
      decide
    exact Factor.scans_text_append hw.asciiExponent (fun _ l _ => hbefore.ends l)
      (fun _ c hc => (hbefore c hc).2.1) h
  have hname : ∀ {rest : List Char}, (∀ c ∈ rest.head?, Text.isNameChar c = false) →
      Token.Heads (.name variableName) ['x'] rest := by
    intro rest hrest
    exact Token.heads_name (by simp) (by simpa using by decide) hrest
  rw [power, powerLexemes]
  cases w.bracketed with
  | true =>
    have hclosing : Token.Scans [')'] [.closing] := .word (Token.heads_sign rfl []) .nil
    have hvariable : Token.Heads (.name variableName) ['x'] [')'] :=
      hname (by simpa using by decide)
    exact .word (Token.heads_sign rfl _) (hfactor (.word hvariable hclosing))
  | false => exact hfactor (.word (hname (by simp)) .nil)

/-- The formula is scanned as its lexemes. -/
theorem scans_text (hw : w.Ascii) : Token.Scans w.text w.lexemes := by
  have hmark : Text.isNameChar w.mark = true ∧ Text.isAsciiDigit w.mark = false ∧ w.mark ≠ '.' := by
    rcases hw.mark with h | h <;> rw [h] <;> decide
  have hpower : Token.Scans ('^' :: w.power) (.caret :: w.powerLexemes w.exponent.lexemes) :=
    .word (Token.heads_sign rfl _) (scans_power hw)
  have hbase : Token.Heads (.name (String.ofList [w.mark])) [w.mark] ('^' :: w.power) :=
    Token.heads_name (by simp) (by simpa using hmark.1) (by simpa using by decide)
  -- The mark with the sign of a power behind it is no power of ten.
  have hends : ∀ l : Literal, l.Ends Text.isAsciiDigit (w.mark :: '^' :: w.power) := by
    intro l
    refine ⟨by simpa using hmark.2.1, fun _ _ => by simpa using hmark.2.2, fun _ => ?_⟩
    rw [Literal.scanPower_mark_cons hw.mark]
    simpa [splitSign] using by decide
  exact Factor.scans_text_append hw.asciiFront (fun _ l _ => hends l)
    (fun _ => by simpa using hmark.2.2) (.word hbase hpower)

/-- The unwritten stars stand behind the numbers. -/
theorem withProducts_lexemes (w : WrittenExponential) :
    Lexeme.withProducts w.lexemes = w.products := by
  have hpower : Lexeme.withProducts (w.powerLexemes w.exponent.lexemes) =
      w.powerLexemes w.exponent.products := by
    rw [powerLexemes, powerLexemes]
    cases w.bracketed with
    | true =>
      have hclosing : Lexeme.withProducts [.name variableName, .closing] =
          [.name variableName, .closing] := rfl
      simp only [if_true]
      rw [Lexeme.withProducts_cons_left rfl, Factor.withProducts_lexemes_append, hclosing]
    | false => exact Factor.withProducts_lexemes_append _ _ _
  rw [lexemes, Factor.withProducts_lexemes_append, Lexeme.withProducts_cons_right rfl,
    Lexeme.withProducts_cons_left rfl, hpower]
  rfl

/-- What the grammar derives from a power of `e`, it derives with plain factors on the base `e`. -/
theorem plain_of_derives (hw : w.Ascii) (h : Derives variableName .expr w.products s) :
    w.mark = 'e' ∧ w.front.Plain ∧ w.exponent.Plain := by
  have hmark : w.mark = 'e' := by
    have hknown := h.mem_knownNames (List.mem_append_right _ List.mem_cons_self)
    refine hw.mark.resolve_right fun hupper => ?_
    rw [hupper] at hknown
    exact absurd hknown (by decide)
  refine ⟨hmark, ⟨hw.asciiFront, ?_⟩, hw.asciiExponent, ?_⟩
  · exact Factor.star_of_derives [] h (by simp)
  · rw [products, powerLexemes] at h
    split at h
    · refine Factor.star_of_derives (w.front.products ++
        [.name (String.ofList [w.mark]), .caret, .opening]) (by simpa using h) fun _ => ?_
      simp [Lexeme.Closes, Lexeme.endsOperand]
    · refine Factor.star_of_derives (w.front.products ++
        [.name (String.ofList [w.mark]), .caret]) (by simpa using h) fun _ => ?_
      simp [Lexeme.Closes, Lexeme.endsOperand]

/-- The base is an atom, and its value is that of the exponential function at one. -/
theorem derives_base : Derives variableName .atom [.name "e"] (.constant .e) :=
  .constant (by decide) (by decide) (by decide)

/-- A power of the base has the value of the exponential function. -/
theorem real?_power {t : Skeleton Numeral} {b : ℝ} (h : t.real? x = some b) :
    (Skeleton.binary .pow (.constant .e) t).real? x = some (Real.exp b) := by
  have hbase : (NamedConstant.e.value : ℝ) = Real.exp 1 := rfl
  have hpower : (Real.exp 1) ^ b = Real.exp b := Real.exp_one_rpow b
  have hdefined : Operator.DefinedAt (Real.exp 1) b .pow := Or.inl (Real.exp_pos 1)
  simp [Skeleton.real?, h, hbase, hdefined, Operator.apply, Scalar.pow, hpower]

/-- An undivided exponent is the exponent of the base. -/
theorem derives_of_undivided (hexponent : w.exponent.Plain) (hwhole : w.Undivided) :
    Derives variableName .power (.name "e" :: .caret :: w.powerLexemes w.exponent.products)
      (.binary .pow (.constant .e) (w.exponent.applied .var)) := by
  have hvariable : Derives variableName .power [.name variableName] .var := .ofAtom .var
  have hunary : Derives variableName .unary (w.powerLexemes w.exponent.products)
      (w.exponent.applied .var) := by
    rw [powerLexemes]
    cases hbracketed : w.bracketed with
    | true =>
      have hinner := Derives.parentheses (.ofTerm (Factor.derives_products hexponent hvariable))
      have hatom := Derives.ofPower (.ofAtom hinner)
      simpa using hatom
    | false =>
      have hliteral : w.exponent.literal = none :=
        hwhole.resolve_left (by simp [hbracketed])
      have hsigned := Factor.derives_signed w.exponent.sign (.ofPower hvariable)
      simpa [Factor.products, Factor.applied, hliteral, hexponent.star hliteral] using hsigned
  exact .power derives_base hunary

/-- With an undivided exponent, the expression has the value of the exponential that is read. -/
theorem real?_of_undivided (hmark : w.mark = 'e') (hfront : w.front.Plain)
    (hexponent : w.exponent.Plain) (hwhole : w.Undivided)
    (h : Derives variableName .expr w.products s) :
    s.real? x = some (w.front.value * Real.exp (w.exponent.value * x)) := by
  have hderives : Derives variableName .expr w.products
      (w.front.applied (.binary .pow (.constant .e) (w.exponent.applied .var))) := by
    rw [products, hmark]
    exact .ofTerm (Factor.derives_products hfront (derives_of_undivided hexponent hwhole))
  rw [h.unique hderives]
  exact Factor.real?_applied hfront (real?_power (Factor.real?_applied hexponent rfl))

/-- Else the variable multiplies the power of the number in the exponent. -/
theorem real?_of_not_undivided (hmark : w.mark = 'e') (hfront : w.front.Plain)
    (hexponent : w.exponent.Plain) (hwhole : ¬w.Undivided)
    (h : Derives variableName .expr w.products s) :
    s.real? x = some (w.front.value * Real.exp w.exponent.value * x) := by
  obtain ⟨hbracketed, hsome⟩ := not_or.mp hwhole
  obtain ⟨l, hl⟩ := Option.ne_none_iff_exists'.mp hsome
  have hnumber : Derives variableName .unary (w.exponent.sign.toList.map Factor.signLexeme ++
      [.number l]) (Factor.signedSkeleton w.exponent.sign (.number l.numeral)) :=
    Factor.derives_signed w.exponent.sign (.ofPower (.ofAtom (.number l)))
  have hterm := Factor.derives_products hfront (.power derives_base hnumber)
  have hderives : Derives variableName .expr w.products (.binary .mul (w.front.applied
      (.binary .pow (.constant .e) (Factor.signedSkeleton w.exponent.sign (.number l.numeral))))
        .var) := by
    have hproduct := Derives.ofTerm (Derives.product (Or.inl rfl) hterm (.ofPower (.ofAtom .var)))
    simpa [products, powerLexemes, hbracketed, hmark, Factor.products, hl, Operator.lexeme]
      using hproduct
  have hvalue : (Factor.signedSkeleton w.exponent.sign (.number l.numeral)).real? x =
      some w.exponent.value := by
    have hplain := Literal.isPlain_of_wellFormed (hexponent.literal l hl)
    rw [Factor.real?_signedSkeleton w.exponent.sign rfl, Factor.value, Factor.magnitude, hl]
    simp [hplain]
  rw [h.unique hderives]
  exact Skeleton.real?_mul (Factor.real?_applied hfront (real?_power hvalue)) rfl

/-- In a factor without powers of ten stand digits, points, signs and stars. -/
theorem mem_text_factor {f : Factor} (hf : f.WellFormed false) (hascii : f.Ascii) {c : Char}
    (hc : c ∈ f.text) :
    Text.isAsciiDigit c = true ∨ c ∈ ['.', '+', '-', '*'] := by
  rw [Factor.text, List.mem_append, List.mem_append] at hc
  rcases hc with hc | hc | hc
  · rcases hf.sign c (Option.mem_toList.mp hc) with rfl | rfl <;> simp
  · cases hl : f.literal with
    | none => rw [hl] at hc; cases hc
    | some l =>
      rw [hl, Factor.literalText, Literal.text_eq, hf.power rfl l hl, Literal.powerText,
        List.append_nil] at hc
      rcases Literal.mem_mantissa (hascii.literal l hl) hc with hdigit | rfl
      · exact Or.inl hdigit
      · simp
  · cases hs : f.star with
    | false => rw [hs] at hc; cases hc
    | true =>
      rw [hs, Factor.starText, List.mem_singleton] at hc
      simp [hc]

/-- The letter of the base stands before the sign of a power, and no other `e` occurs. -/
theorem isChain_text (hw : w.Ascii) :
    w.text.IsChain fun c d => (c = 'e' ∨ c = 'E') → Signs.isSign d = false := by
  have hfactor : ∀ {f : Factor}, f.WellFormed false → f.Ascii →
      ∀ c ∈ f.text, ¬(c = 'e' ∨ c = 'E') := by
    intro f hf hascii c hc hmark
    rcases mem_text_factor hf hascii hc with hdigit | hother
    · rcases hmark with rfl | rfl <;> cases hdigit
    · rcases hmark with rfl | rfl <;> simp at hother
  have hfree : ∀ {text : List Char}, (∀ c ∈ text, ¬(c = 'e' ∨ c = 'E')) →
      text.IsChain fun c d => (c = 'e' ∨ c = 'E') → Signs.isSign d = false := by
    intro text htext
    rw [List.isChain_iff_forall_rel_of_append_cons_cons]
    intro c d u v heq hmark
    exact absurd hmark (htext c (by simp [heq]))
  have hfront := hfactor hw.front hw.asciiFront
  have hpower : ∀ c ∈ '^' :: w.power, ¬(c = 'e' ∨ c = 'E') := by
    intro c hc
    rw [power, List.mem_cons] at hc
    split at hc
    · simp only [List.mem_cons, List.mem_append, List.not_mem_nil, or_false] at hc
      rcases hc with rfl | rfl | hc | rfl | rfl
      · decide
      · decide
      · exact hfactor hw.exponent hw.asciiExponent c hc
      · decide
      · decide
    · simp only [List.mem_append, List.mem_singleton] at hc
      rcases hc with rfl | hc | rfl
      · decide
      · exact hfactor hw.exponent hw.asciiExponent c hc
      · decide
  rw [text, List.isChain_append, List.isChain_cons_cons]
  exact ⟨hfree hfront, ⟨fun _ => rfl, hfree hpower⟩,
    fun c hc _ _ hmark => absurd hmark (hfront c (List.mem_of_mem_getLast? hc))⟩

/-- Where the source is one of an expression, the digits are ASCII digits. -/
theorem ascii_of_source (hw : w.WellFormed) {right : List Char}
    (htext : w.text = Signs.normalize right) {e : Expression}
    (hsource : Expression.ofText right = .ok e) : w.Ascii := by
  have hdigits : ∀ c ∈ w.text, Text.isDecimalDigit c = true → Text.isAsciiDigit c = true :=
    fun c hc => Expression.isAsciiDigit_of_mem_normalize hsource (htext ▸ hc)
  have hpower : ∀ c ∈ w.exponent.text, c ∈ w.power := by
    intro c hc
    rw [power]
    split <;> simp [hc]
  exact ⟨hw, hw.front.ascii fun c hc => hdigits c (by simp [text, hc]),
    hw.exponent.ascii fun c hc => hdigits c (by simp [text, hpower c hc])⟩

/-- Which function the expression denotes whose text is read as an exponential: the exponential
itself, unless its exponent has a number and no parentheses around it. -/
theorem read_and_real?_eq (rules : ReadingRules) (right : List Char) (p : Plot) (a b : Float)
    (e : Expression) (hread : rules.read (String.ofList ('y' :: '=' :: right)) = .ok p)
    (hcurve : p.curve = .exponential a b) (hsource : Expression.ofText right = .ok e)
    (hblanks : Lexeme.BlanksIdle right) :
    ∃ w : WrittenExponential, w.WellFormed ∧ w.text = Signs.normalize right ∧
      a = w.front.value ∧ b = w.exponent.value ∧
      readExponential (α := ℝ) (Signs.normalize right) = .ok w.curve ∧
      (w.Undivided → ∀ x : ℝ, e.tree.real? x = (w.curve : Curve ℝ).closedForm? x) ∧
      (¬w.Undivided → ∀ x : ℝ,
        e.tree.real? x = some (w.front.value * Real.exp w.exponent.value * x)) := by
  have hcolon : ':' ∉ right := fun hmem => by
    rcases Expression.char_cases hsource hmem with hc | hc | hc | hc | hc <;>
      exact absurd hc (by decide +kernel)
  have hexplicit := ReadingRules.readExplicit_of_read hcolon hread
  have hexponential : readExponential (Signs.normalize right) = .ok p.curve := by
    rcases readExplicit_cases hexplicit with ⟨-, h⟩ | ⟨h, -⟩ | ⟨h, -⟩ | ⟨e', -, h⟩
    · exact h
    · rw [hcurve] at h; cases h
    · rw [hcurve] at h; rcases h with h | h <;> cases h
    · rw [hcurve] at h; cases h
  obtain ⟨w, hw, htext, hcarriers⟩ := exists_written hexponential
  have hboth : Curve.exponential a b = w.curve := by
    have hfloat := hcarriers (β := Float)
    rw [hexponential, hcurve] at hfloat
    exact Except.ok.inj hfloat
  obtain ⟨rfl, rfl⟩ := Curve.exponential.inj hboth
  have hascii := ascii_of_source hw htext hsource
  have hruns : Signs.runsInPower (Text.compact right) = false := by
    have hchain := isChain_text hascii
    rw [htext, Signs.normalize, Signs.collapse_eq_joined] at hchain
    exact Signs.runsInPower_of_isChain_joined hchain
  obtain ⟨ms, hms, hskeleton⟩ := Expression.exists_scans hsource
  obtain ⟨ls, s, hscans, hderives, hvalue⟩ := hms.exists_normal hskeleton hblanks hruns
  rw [← htext] at hscans
  rw [hscans.unique (scans_text hascii), withProducts_lexemes] at hderives
  obtain ⟨hmark, hfront, hexponent⟩ := plain_of_derives hascii hderives
  refine ⟨w, hw, htext, rfl, rfl, hcarriers, fun hwhole x => ?_, fun hwhole x => ?_⟩
  · rw [Expr.real?_eq_skeleton, ← hvalue x,
      real?_of_undivided hmark hfront hexponent hwhole hderives]
    rfl
  · rw [Expr.real?_eq_skeleton, ← hvalue x,
      real?_of_not_undivided hmark hfront hexponent hwhole hderives]

/-- A right side with a power of `e` is read as what the reader of such powers makes of it. -/
theorem exists_read (rules : ReadingRules) (right : List Char) (w : WrittenExponential)
    (hcolon : ':' ∉ right)
    (hmark : Text.contains exponentialMark (Text.lower (Signs.normalize right)) = true)
    (h : readExponential (α := Float) (Signs.normalize right) = .ok w.curve) :
    ∃ p, rules.read (String.ofList ('y' :: '=' :: right)) = .ok p ∧ p.curve = w.curve := by
  refine ReadingRules.exists_read_of_readExplicit hcolon ?_
  rw [readExplicit, hmark, if_pos rfl, h]

/-- An exponential with a blank behind its factor and parentheses around its exponent. -/
theorem read_and_real?_eq_bracketed :
    ∃ (p : Plot) (e : Expression) (a b : Float) (w : WrittenExponential),
    ReadingRules.standard.read "y=2 e^(3x)" = .ok p ∧ p.curve = .exponential a b ∧
    Expression.ofText ['2', ' ', 'e', '^', '(', '3', 'x', ')'] = .ok e ∧
    w.text = ['2', 'e', '^', '(', '3', 'x', ')'] ∧
    (w.Undivided → ∀ x : ℝ, e.tree.real? x = (w.curve : Curve ℝ).closedForm? x) := by
  have hsource : Expression.ofText ['2', ' ', 'e', '^', '(', '3', 'x', ')'] =
      .ok ⟨"2 e^(3x)", .binary .mul (.number ⟨2, 0⟩ ⟨0, 1⟩) (.binary .pow (.constant .e ⟨2, 3⟩)
        (.binary .mul (.number ⟨3, 0⟩ ⟨5, 6⟩) (.var ⟨6, 7⟩) ⟨5, 7⟩) ⟨2, 7⟩) ⟨0, 7⟩⟩ :=
    eq_ok_of_toOption (by decide +kernel)
  have hnormal : Signs.normalize ['2', ' ', 'e', '^', '(', '3', 'x', ')'] =
      ['2', 'e', '^', '(', '3', 'x', ')'] := by
    rw [Signs.normalize, Signs.collapse_eq_joined]
    rfl
  obtain ⟨p, hread, hcurve⟩ := exists_read ReadingRules.standard
      ['2', ' ', 'e', '^', '(', '3', 'x', ')']
    ⟨⟨none, some ⟨['2'], none, none⟩, false⟩, 'e', true, ⟨none, some ⟨['3'], none, none⟩, false⟩⟩
    (by decide) (by rw [hnormal]; decide) (by rw [hnormal]; rfl)
  have hblanks : Lexeme.BlanksIdle ['2', ' ', 'e', '^', '(', '3', 'x', ')'] := by
    unfold Lexeme.BlanksIdle
    decide +kernel
  obtain ⟨w, -, htext, -, -, -, hwhole, -⟩ :=
    read_and_real?_eq ReadingRules.standard _ p _ _ _ hread hcurve hsource hblanks
  exact ⟨p, _, _, _, w, hread, hcurve, hsource, htext.trans hnormal, hwhole⟩

/-- Whether the exponential of a right side has another real value at zero than the expression of
the same text. -/
def ReadsOther (right : List Char) : Prop :=
  ∃ (p : Plot) (e : Expression) (w : WrittenExponential),
    ReadingRules.standard.read (String.ofList ('y' :: '=' :: right)) = .ok p ∧
    p.curve = w.curve ∧ Expression.ofText right = .ok e ∧
    w.text = Signs.normalize right ∧ e.tree.real? 0 ≠ (w.curve : Curve ℝ).closedForm? 0

/-- The expression of `e^2x` vanishes at zero, where the exponential that is read is one, and that
of `1 0*e^x` vanishes everywhere, where ten times the exponential function is read. -/
theorem not_real?_eq_closedForm? :
    ReadsOther ['e', '^', '2', 'x'] ∧ ReadsOther ['1', ' ', '0', '*', 'e', '^', 'x'] := by
  have hnumber : ∀ n : ℕ, (Scalar.ofNumeral ⟨n, 0⟩ : ℝ) = n := by
    intro n
    simp [Scalar.ofNumeral, Numeral.value]
  constructor
  · have hsource : Expression.ofText ['e', '^', '2', 'x'] =
        .ok ⟨"e^2x", .binary .mul (.binary .pow (.constant .e ⟨0, 1⟩) (.number ⟨2, 0⟩ ⟨2, 3⟩) ⟨0, 3⟩)
          (.var ⟨3, 4⟩) ⟨0, 4⟩⟩ :=
      eq_ok_of_toOption (by decide +kernel)
    have hnormal : Signs.normalize ['e', '^', '2', 'x'] = ['e', '^', '2', 'x'] := by
      rw [Signs.normalize, Signs.collapse_eq_joined]
      rfl
    let w : WrittenExponential :=
      ⟨⟨none, none, false⟩, 'e', false, ⟨none, some ⟨['2'], none, none⟩, false⟩⟩
    obtain ⟨p, hread, hcurve⟩ := exists_read ReadingRules.standard
      ['e', '^', '2', 'x'] w (by decide) (by rw [hnormal]; decide) (by rw [hnormal]; rfl)
    have hzero : (Skeleton.binary .mul (.binary .pow (.constant .e) (.number ⟨2, 0⟩)) .var).real? 0 =
        some (Real.exp (Scalar.ofNumeral ⟨2, 0⟩) * 0) :=
      Skeleton.real?_mul (real?_power rfl) rfl
    refine ⟨p, _, w, hread, hcurve, hsource, hnormal.symm, ?_⟩
    rw [Expr.real?_eq_skeleton]
    simp only [Expr.skeleton, hzero]
    simp [WrittenExponential.curve, Curve.closedForm?, w, Factor.value, Factor.signed,
      Factor.magnitude, Scalar.one, hnumber, Scalar.exp]
  · have hsource : Expression.ofText ['1', ' ', '0', '*', 'e', '^', 'x'] =
        .ok ⟨"1 0*e^x", .binary .mul (.binary .mul (.number ⟨1, 0⟩ ⟨0, 1⟩) (.number ⟨0, 0⟩ ⟨2, 3⟩)
          ⟨0, 3⟩) (.binary .pow (.constant .e ⟨4, 5⟩) (.var ⟨6, 7⟩) ⟨4, 7⟩) ⟨0, 7⟩⟩ :=
      eq_ok_of_toOption (by decide +kernel)
    have hnormal : Signs.normalize ['1', ' ', '0', '*', 'e', '^', 'x'] =
        ['1', '0', '*', 'e', '^', 'x'] := by
      rw [Signs.normalize, Signs.collapse_eq_joined]
      rfl
    let w : WrittenExponential :=
      ⟨⟨none, some ⟨['1', '0'], none, none⟩, true⟩, 'e', false, ⟨none, none, false⟩⟩
    obtain ⟨p, hread, hcurve⟩ := exists_read ReadingRules.standard
      ['1', ' ', '0', '*', 'e', '^', 'x'] w (by decide) (by rw [hnormal]; decide)
      (by rw [hnormal]; rfl)
    have hzero : (Skeleton.binary .mul (.binary .mul (.number ⟨1, 0⟩) (.number ⟨0, 0⟩))
        (.binary .pow (.constant .e) .var)).real? 0 =
        some (Scalar.ofNumeral ⟨1, 0⟩ * Scalar.ofNumeral ⟨0, 0⟩ * Real.exp 0) :=
      Skeleton.real?_mul (Skeleton.real?_mul rfl rfl) (real?_power rfl)
    refine ⟨p, _, w, hread, hcurve, hsource, hnormal.symm, ?_⟩
    rw [Expr.real?_eq_skeleton]
    simp only [Expr.skeleton, hzero]
    have hten : Literal.numeral ⟨['1', '0'], none, none⟩ = ⟨10, 0⟩ := by decide
    have hplain : Literal.isPlain ⟨['1', '0'], none, none⟩ = true := by decide
    simp [WrittenExponential.curve, Curve.closedForm?, w, Factor.value, Factor.signed,
      Factor.magnitude, hten, hplain, hnumber, Scalar.exp]

end WrittenExponential

end CurvePlot
