import CurvePlot.Proofs.Expr.FurtherBlanks
import CurvePlot.Proofs.Formula.ExplicitReading
import CurvePlot.Proofs.Formula.TermExpression

/-!
# What an explicit sum of terms denotes

The explicit grammar takes the blanks out of a right side, joins its signs and reads it as a sum of
terms, or leaves it to the expressions. The same text behind the key of expressions is read with
its blanks and signs. `readPolynomial_and_real?_eq` says that both denote the same function, as long
as no blank keeps two numbers or two names apart and no signs are joined to that of a power of ten.
-/

namespace CurvePlot

open Grammar

/-! ### Terms that are read -/

/-- A term that is read is one as written, and a sign in front of the text is its sign. -/
theorem Term.wellFormed_of_read? {text : List Char} {t : Term} (h : read? text = some t) :
    t.WellFormed ∧ t.factor.sign = (splitSign text).1 := by
  unfold read? at h
  rcases hscan : Factor.scan true text with ⟨factor, symbol⟩
  rw [hscan] at h
  have hfactor := Factor.wellFormed_of_scan hscan
  have hsign : factor.sign = (splitSign text).1 := by
    have hsame : factor = (Factor.scan true text).1 := by rw [hscan]
    rw [hsame]
    rfl
  have hsymbol : ∀ m : Monomial, m ≠ .one → some ⟨factor, m⟩ = some t →
      t.WellFormed ∧ t.factor.sign = (splitSign text).1 := by
    rintro m hm ⟨⟩
    exact ⟨⟨hfactor, fun hone => absurd hone hm⟩, hsign⟩
  dsimp only at h
  split at h
  · exact hsymbol .square (by simp) h
  split at h
  · exact hsymbol .x (by simp) h
  split at h
  · exact hsymbol .y (by simp) h
  split at h
  · next hnumber =>
    split at h
    · next literal hliteral =>
      split at h
      · next hplain =>
        cases h
        have hstar : factor.star = false := by
          simpa using (Bool.and_eq_true_iff.mp hnumber).2
        exact ⟨⟨hfactor, fun _ => ⟨hstar, literal, hliteral, hplain⟩⟩, hsign⟩
      · cases h
    · cases h
  · cases h

namespace Terms

variable {depth : ℤ} {current text : List Char}

/-- The first part begins with what has been read of it. -/
theorem exists_splitFrom (depth : ℤ) (hne : current ≠ []) (text : List Char) :
    ∃ front others, splitFrom depth current text = (current.reverse ++ front) :: others := by
  induction text generalizing depth current with
  | nil => exact ⟨[], [], by simp [splitFrom, hne]⟩
  | cons c rest ih =>
    rw [splitFrom]
    split
    · exact ⟨[], splitFrom depth [c] rest, by simp⟩
    · obtain ⟨front, others, hsplit⟩ := ih (depth + nesting c) (List.cons_ne_nil c current)
      exact ⟨c :: front, others, by simp [hsplit]⟩

/-- Every part but the first begins with a sign. -/
theorem sign_of_mem_tail {part : List Char} (h : part ∈ (splitFrom depth current text).tail) :
    ∃ c rest, part = c :: rest ∧ Signs.isSign c = true := by
  induction text generalizing depth current with
  | nil =>
    rw [splitFrom] at h
    split at h <;> cases h
  | cons c rest ih =>
    rw [splitFrom] at h
    split at h
    · next hjoins =>
      rw [Bool.and_assoc] at hjoins
      have hsign : Signs.isSign c = true := (Bool.and_eq_true_iff.mp hjoins).1
      obtain ⟨front, others, hsplit⟩ := exists_splitFrom depth (List.cons_ne_nil c []) rest
      rw [List.tail_cons, hsplit] at h
      rcases List.mem_cons.mp h with rfl | h
      · exact ⟨c, front, by simp, hsign⟩
      · have htail : part ∈ (splitFrom depth [c] rest).tail := by rw [hsplit]; exact h
        exact ih htail
    · exact ih h

/-- The terms that are read are written like the texts, one by one. -/
theorem texts_of_readAll {texts : List (List Char)} {ts : List Term}
    (h : readAll texts = .ok ts) :
    ts.map Term.text = texts ∧ ∀ t ∈ ts, Term.read? t.text = some t := by
  induction texts generalizing ts with
  | nil => cases h; simp
  | cons text texts ih =>
    rw [readAll] at h
    split at h
    · cases h
    · next t ht =>
      obtain ⟨others, hrest, rfl⟩ := map_eq_ok h
      obtain ⟨htexts, hread⟩ := ih hrest
      have htext := Term.text_of_read? ht
      refine ⟨by simp [htexts, htext], ?_⟩
      intro u hu
      rcases List.mem_cons.mp hu with rfl | hu
      · rw [htext]; exact ht
      · exact hread u hu

/-- The terms of a normal text make it up, and each but the first has a sign. -/
theorem exists_of_read {right : List Char} {ts : List Term} (hnormal : Signs.normalize right = right)
    (h : read right = .ok ts) :
    ∃ t us, ts = t :: us ∧ ts.flatMap Term.text = right ∧ (∀ u ∈ ts, u.WellFormed) ∧
      ∀ u ∈ us, u.factor.sign ≠ none := by
  rw [read, hnormal] at h
  split at h
  · cases h
  · next hne =>
    obtain ⟨htexts, hread⟩ := texts_of_readAll h
    cases ts with
    | nil =>
      rw [List.map_nil] at htexts
      exact absurd (by rw [← htexts]; rfl) hne
    | cons t us =>
      refine ⟨t, us, rfl, ?_, fun u hu => (Term.wellFormed_of_read? (hread u hu)).1, fun u hu => ?_⟩
      · rw [List.flatMap_def, htexts, flatten_split]
      · -- The text of a later term begins with the sign that it was cut off at.
        have htail : u.text ∈ (split right).tail := by
          rw [← htexts]
          exact List.mem_map_of_mem hu
        obtain ⟨c, rest, hrest, hc⟩ := sign_of_mem_tail htail
        have hsign := (Term.wellFormed_of_read? (hread u (List.mem_cons_of_mem t hu))).2
        have hsplit : (c == '+' || c == '-') = true := hc
        rw [hsign, hrest, splitSign, if_pos hsplit]
        simp

/-- What is collected are the sums of the terms that are read. -/
theorem exists_of_collect {α : Type} [Scalar α] {right : List Char} {sums : Terms α}
    (h : collect right = .ok sums) : ∃ ts, read right = .ok ts ∧ ts.foldl add zero = sums := by
  rw [collect] at h
  exact map_eq_ok h

/-- The symbol of a term stands in the text of the sum. -/
theorem symbol_infix {right : List Char} {ts : List Term} (htext : ts.flatMap Term.text = right) :
    ∀ t ∈ ts, t.monomial.symbol <:+: right := by
  intro t ht
  have hterm : t.text <:+: ts.flatMap Term.text := by
    rw [List.flatMap_def]
    exact List.infix_of_mem_flatten (List.mem_map_of_mem ht)
  rw [← htext]
  exact (List.suffix_append t.factor.text t.monomial.symbol).isInfix.trans hterm

/-- A sum of terms without the letter `y` is one in one variable. -/
theorem monomial_ne_y {right : List Char} {ts : List Term} (htext : ts.flatMap Term.text = right)
    (hy : 'y' ∉ right) : ∀ t ∈ ts, t.monomial ≠ .y := by
  intro t ht hm
  have hpart := symbol_infix htext t ht
  rw [hm] at hpart
  exact hy (hpart.mem List.mem_cons_self)

/-- A sum of terms without the text of a square has no square. -/
theorem monomial_ne_square {right : List Char} {ts : List Term}
    (htext : ts.flatMap Term.text = right)
    (hsquare : Text.contains Monomial.square.symbol right = false) :
    ∀ t ∈ ts, t.monomial ≠ .square := by
  intro t ht hm
  have hpart := symbol_infix htext t ht
  rw [hm, ← Text.contains_iff, hsquare] at hpart
  cases hpart

variable {α : Type} [Scalar α]

/-- Terms without a monomial leave what only its terms change as it is. -/
theorem part_foldl_add {part : Terms α → α} {m : Monomial}
    (hadd : ∀ (sums : Terms α) (t : Term), t.monomial ≠ m → part (add sums t) = part sums)
    (sums : Terms α) {ts : List Term} (h : ∀ t ∈ ts, t.monomial ≠ m) :
    part (ts.foldl add sums) = part sums := by
  induction ts generalizing sums with
  | nil => rfl
  | cons t ts ih =>
    rw [List.foldl_cons, ih _ fun u hu => h u (by simp [hu]), hadd sums t (h t (by simp))]

/-- Terms without `y` leave the factor of `y` as it is. -/
theorem y_foldl_add (sums : Terms α) {ts : List Term} (h : ∀ t ∈ ts, t.monomial ≠ .y) :
    (ts.foldl add sums).y = sums.y := by
  refine part_foldl_add (fun sums t ht => ?_) sums h
  rw [add]
  cases hm : t.monomial <;> first | rfl | exact absurd hm ht

/-- Terms without squares leave the factor of the square as it is. -/
theorem square_foldl_add (sums : Terms α) {ts : List Term} (h : ∀ t ∈ ts, t.monomial ≠ .square) :
    (ts.foldl add sums).square = sums.square := by
  refine part_foldl_add (fun sums t ht => ?_) sums h
  rw [add]
  cases hm : t.monomial <;> first | rfl | exact absurd hm ht

/-- The curve of a sum of terms in one variable: a parabola if the text holds a square. -/
def curve (right : List Char) (sums : Terms α) : Curve α :=
  if Text.contains Monomial.square.symbol right then .quadratic sums.square sums.x sums.constant
  else .linear sums.x sums.constant

/-- Its family does not depend on the carrier. -/
theorem family_curve {β : Type} (right : List Char) (sums : Terms β) :
    (curve right sums).family =
    if Text.contains Monomial.square.symbol right then .quadratic else .linear := by
  rw [curve]
  split <;> rfl

end Terms

/-! ### The polynomial that is read -/

/-- A right side without `y` that is read as a polynomial is a sum of terms. -/
theorem exists_terms_of_readPolynomial {α : Type} [Scalar α] [BEq α] {right : List Char}
    {c : Curve α} (hy : 'y' ∉ right) (h : readPolynomial right = .ok (some c)) :
    ∃ ts, Terms.read right = .ok ts := by
  have hcollect : ∀ {sums : Terms α}, Terms.collect right = .ok sums →
      ∃ ts, Terms.read right = .ok ts := fun hsums =>
    (Terms.exists_of_collect hsums).imp fun _ h => h.1
  have hno : right.contains 'y' = false := by simpa using hy
  unfold readPolynomial at h
  rw [hno] at h
  split at h
  · split at h
    · next sums hsums => exact hcollect hsums
    · cases h
    · cases h
  · simp only [Bool.false_eq_true, if_false] at h
    split at h
    · next sums hsums => exact hcollect hsums
    · cases h
    · cases h

/-- A sum of terms without `y` is read as the polynomial with the collected factors. -/
theorem readPolynomial_of_read {α : Type} [Scalar α] [BEq α]
    (hzero : ((Scalar.zero : α) == Scalar.zero) = true) {right : List Char} {ts : List Term}
    (hy : 'y' ∉ right) (htext : ts.flatMap Term.text = right) (hread : Terms.read right = .ok ts) :
    readPolynomial right = .ok (some (Terms.curve (α := α) right (ts.foldl Terms.add Terms.zero))) := by
  have hcollect : Terms.collect (α := α) right = .ok (ts.foldl Terms.add Terms.zero) := by
    rw [Terms.collect, hread]
    rfl
  have hnoy : (ts.foldl Terms.add (Terms.zero : Terms α)).y = Scalar.zero :=
    Terms.y_foldl_add _ (Terms.monomial_ne_y htext hy)
  unfold readPolynomial Terms.curve
  cases hsquare : Text.contains Monomial.square.symbol right with
  | true => simp [hy, hcollect]
  | false =>
    have hnosquare : (ts.foldl Terms.add (Terms.zero : Terms α)).square = Scalar.zero :=
      Terms.square_foldl_add _ (Terms.monomial_ne_square htext hsquare)
    simp [hcollect, hnoy, hnosquare, hzero]

/-- The value of the polynomial is the sum of the values of its terms. -/
theorem Terms.closedForm?_curve {right : List Char} {ts : List Term}
    (htext : ts.flatMap Term.text = right) (x : ℝ) :
    (curve right (ts.foldl add zero)).closedForm? x = some ((ts.map (Term.valueAt x)).sum) := by
  have hzero : (Scalar.zero : ℝ) = 0 := by simp [Scalar.zero, Scalar.ofNumeral, Numeral.value]
  have hsum : (ts.foldl add zero).valueAt x = (ts.map (Term.valueAt x)).sum := by
    rw [valueAt_foldl_add]
    simp [valueAt, zero, hzero]
  rw [curve, ← hsum]
  cases hsquare : Text.contains Monomial.square.symbol right with
  | true => rfl
  | false =>
    have hnone := square_foldl_add (zero : Terms ℝ) (monomial_ne_square htext hsquare)
    have hnil : (ts.foldl add (zero : Terms ℝ)).square = 0 := hnone.trans hzero
    simp [Curve.closedForm?, valueAt, hnil]

/-! ### The same text as an expression -/

/-- The expression of a text whose normal form is a sum of terms in one variable has their sum as
its value. -/
theorem Terms.real?_of_derives {t : Term} {us : List Term} {ls : List Lexeme}
    {s : Skeleton Numeral} (hwell : ∀ u ∈ t :: us, u.WellFormed ∧ u.factor.Ascii)
    (hy : ∀ u ∈ t :: us, u.monomial ≠ .y) (hsigns : ∀ u ∈ us, u.factor.sign ≠ none)
    (hscans : Token.Scans ((t :: us).flatMap Term.text) ls)
    (hderives : Derives variableName .expr (Lexeme.withProducts ls) s) (x : ℝ) :
    s.real? x = some (((t :: us).map (Term.valueAt x)).sum) := by
  have hrow : ∀ u ∈ us, u.factor.Ascii ∧ u.factor.sign ≠ none := fun u hu =>
    ⟨(hwell u (List.mem_cons_of_mem t hu)).2, hsigns u hu⟩
  have hone : ∀ u ∈ t :: us, u.monomial = .one → u.factor.star = false := fun u hu hm =>
    ((hwell u hu).1.number hm).1
  rw [hscans.unique (scans_texts (hwell t (by simp)).2 hrow), withProducts_lexemes hone hrow]
    at hderives
  -- A star without a number would stand where an operand has to begin.
  have hstar : ∀ u ∈ t :: us, u.factor.literal = none → u.factor.star = false := by
    intro u hu
    by_cases hm : u.monomial = .one
    · exact fun _ => hone u hu hm
    · obtain ⟨before, behind, hsplit⟩ := List.append_of_mem hu
      have hproducts : (t :: us).flatMap Term.products = before.flatMap Term.products ++
          (u.factor.products ++ (u.monomial.lexemes ++ behind.flatMap Term.products)) := by
        rw [hsplit]
        simp [Term.products, hm]
      rw [hproducts] at hderives
      refine Factor.star_of_derives _ hderives fun hnone => ?_
      cases before with
      | nil => simp
      | cons v before =>
        obtain ⟨rfl, rfl⟩ := List.cons.inj hsplit
        exact absurd hnone (hsigns u (by simp))
  have hplain : ∀ u ∈ t :: us, u.Plain := by
    intro u hu
    refine ⟨⟨(hwell u hu).2, hstar u hu⟩, hy u hu, fun hm => ⟨hone u hu hm, fun hnone => ?_⟩⟩
    obtain ⟨-, l, hl, -⟩ := (hwell u hu).1.number hm
    rw [hnone] at hl
    cases hl
  obtain ⟨u, hu, hvalue⟩ := Terms.exists_derives (hplain t (by simp))
    (fun u hu => ⟨hplain u (List.mem_cons_of_mem t hu), hsigns u hu⟩) x
  rw [hderives.unique hu, hvalue]

/-- What is read as a sum of terms or left to the expressions denotes the function that the
expression of the same text denotes, where no blank keeps numbers or names apart and no signs are
joined to that of a power of ten. -/
theorem readPolynomial_and_real?_eq (rules : ReadingRules) (right : List Char) (p q : Plot)
    (hcolon : ':' ∉ right) (hy : 'y' ∉ right)
    (hread : rules.read (String.ofList ('y' :: '=' :: right)) = .ok p)
    (hfamily : p.family = .linear ∨ p.family = .quadratic ∨ p.family = .expression)
    (hkeyed : rules.read (String.ofList ('e' :: 'x' :: 'p' :: 'r' :: ':' :: right)) = .ok q)
    (hblanks : Lexeme.BlanksIdle right)
    (hruns : Signs.runsInPower (Text.compact right) = false) :
    (p.family = .expression → ∀ x, p.curve.real? x = q.curve.real? x) ∧
    (p.family ≠ .expression →
      readPolynomial (Signs.normalize right) = .ok (some p.curve) ∧
      ∃ exact : Curve ℝ, readPolynomial (Signs.normalize right) = .ok (some exact) ∧
        exact.family = p.family ∧ ∀ x, exact.closedForm? x = q.curve.real? x) ∧
    ∀ e, Expression.ofText right = .ok e → ∀ x, q.curve.real? x = e.tree.real? x := by
  obtain ⟨body, back, e₀, hright, hback, hsource, hcurve⟩ :=
    ReadingRules.read_expression hcolon hkeyed
  obtain ⟨ls, hscans, hderives⟩ := Expression.exists_scans hsource
  have hwhole : Token.Scans right ls := by
    rw [hright]
    exact hscans.of_trim.append_blanks hback
  have hvalue : ∀ x, q.curve.real? x = e₀.tree.skeleton.real? x := by
    intro x
    rw [hcurve, Curve.real?, Expr.real?_eq_skeleton]
  have hnormal : Signs.normalize right = Signs.normalize (Text.trim body) := by
    have hcompact : Text.compact right = Text.compact (Text.trim body) := by
      have hnil : Text.compact back = [] := List.filter_eq_nil_iff.mpr (by simpa using hback)
      rw [Text.compact_trim, hright, Text.compact, List.filter_append]
      rw [Text.compact] at hnil
      rw [hnil, List.append_nil]
      rfl
    rw [Signs.normalize, hcompact, Signs.normalize]
  obtain ⟨ms, s, hms, hs, hsame⟩ := hwhole.exists_normal hderives hblanks hruns
  have hcases := readExplicit_cases (ReadingRules.readExplicit_of_read hcolon hread)
  refine ⟨fun hexpression x => ?_, fun hpolynomial => ?_, fun e he x => ?_⟩
  · rcases hcases with ⟨h, -⟩ | ⟨h, -⟩ | ⟨h, -⟩ | ⟨e, he, hp⟩
    · rw [Plot.family, h] at hexpression; cases hexpression
    · rw [Plot.family, h] at hexpression; cases hexpression
    · rw [Plot.family] at hexpression
      rcases h with h | h <;> rw [h] at hexpression <;> cases hexpression
    · rw [hp, Curve.real?, ← hms.real?_eq hs he x, hvalue x, hsame x]
  · have hread : readPolynomial (Signs.normalize right) = .ok (some p.curve) := by
      rcases hcases with ⟨h, -⟩ | ⟨h, -⟩ | ⟨-, h⟩ | ⟨e, -, hp⟩
      · rw [Plot.family, h] at hfamily; simp at hfamily
      · rw [Plot.family, h] at hfamily; simp at hfamily
      · exact h
      · exact absurd (by rw [Plot.family, hp]; rfl) hpolynomial
    have hnoy : 'y' ∉ Signs.normalize right := by
      rwa [Signs.mem_normalize_iff (by decide) (by decide)]
    obtain ⟨ts, hts⟩ := exists_terms_of_readPolynomial hnoy hread
    obtain ⟨t, us, rfl, htext, hwell, hsigns⟩ :=
      Terms.exists_of_read (Signs.normalize_normalize right) hts
    have hfloat := readPolynomial_of_read (α := Float) (by decide +kernel) hnoy htext hts
    have hreal := readPolynomial_of_read (α := ℝ) (by simp) hnoy htext hts
    refine ⟨hread, _, hreal, ?_, fun x => ?_⟩
    · rw [hread] at hfloat
      rw [Plot.family, Option.some.inj (Except.ok.inj hfloat), Terms.family_curve,
        Terms.family_curve]
    · have hascii : ∀ u ∈ t :: us, u.WellFormed ∧ u.factor.Ascii := by
        intro u hu
        refine ⟨hwell u hu, (hwell u hu).factor.ascii fun c hc => ?_⟩
        refine Expression.isAsciiDigit_of_mem_normalize hsource ?_
        rw [← hnormal, ← htext]
        exact List.mem_flatMap.mpr ⟨u, hu, List.mem_append_left _ hc⟩
      rw [← htext] at hms
      rw [Terms.closedForm?_curve htext, hvalue x, ← hsame x,
        Terms.real?_of_derives hascii (Terms.monomial_ne_y htext hnoy) hsigns hms hs x]
  · rw [hvalue x, hwhole.real?_eq hderives he x]

/-- A parabola with two signs behind a blank. -/
theorem readPolynomial_and_real?_eq_parabola :
    ∃ (p q : Plot) (exact : Curve ℝ), ReadingRules.standard.read "y=2x^2 --x" = .ok p ∧
      p.family = .quadratic ∧ ReadingRules.standard.read "expr:2x^2 --x" = .ok q ∧
      readPolynomial ['2', 'x', '^', '2', '+', 'x'] = .ok (some exact) ∧
      exact.family = .quadratic ∧ ∀ x, exact.closedForm? x = q.curve.real? x := by
  have hp : (ReadingRules.standard.read "y=2x^2 --x").toOption.map Plot.family =
      some .quadratic := by decide +kernel
  have hq : (ReadingRules.standard.read "expr:2x^2 --x").toOption.map Plot.family =
      some .expression := by decide +kernel
  obtain ⟨p, hp, hfamily⟩ := Option.map_eq_some_iff.mp hp
  obtain ⟨q, hq, -⟩ := Option.map_eq_some_iff.mp hq
  have hread := eq_ok_of_toOption hp
  have hkeyed := eq_ok_of_toOption hq
  have hnormal : Signs.normalize ['2', 'x', '^', '2', ' ', '-', '-', 'x'] =
      ['2', 'x', '^', '2', '+', 'x'] := by
    rw [Signs.normalize, Signs.collapse_eq_joined]
    rfl
  have hblanks : Lexeme.BlanksIdle ['2', 'x', '^', '2', ' ', '-', '-', 'x'] := by
    unfold Lexeme.BlanksIdle
    decide +kernel
  obtain ⟨-, hpolynomial, -⟩ := readPolynomial_and_real?_eq ReadingRules.standard
    ['2', 'x', '^', '2', ' ', '-', '-', 'x'] p q (by decide) (by decide) hread
    (Or.inr (Or.inl hfamily)) hkeyed hblanks (by decide)
  obtain ⟨-, exact, hexact, hsame, hvalue⟩ := hpolynomial (by rw [hfamily]; decide)
  rw [hnormal] at hexact
  exact ⟨p, q, exact, hread, hfamily, hkeyed, hexact, hsame.trans hfamily, hvalue⟩

/-- A number alone is read as the constant that it writes. -/
theorem exists_exact_of_number {right : List Char} {literal : Literal}
    (hread : Terms.read right = .ok [⟨⟨none, some literal, false⟩, .one⟩])
    (htext : literal.text = right) (hy : 'y' ∉ right) (hplain : literal.isPlain = true) :
    ∃ exact : Curve ℝ, readPolynomial right = .ok (some exact) ∧
      exact.closedForm? 0 = some (literal.numeral.value : ℝ) := by
  have hrow : [(⟨⟨none, some literal, false⟩, .one⟩ : Term)].flatMap Term.text = right := by
    simp [Term.text, Factor.text, Factor.literalText, Factor.starText, Monomial.symbol, htext]
  refine ⟨_, readPolynomial_of_read (α := ℝ) (by simp) hy hrow hread, ?_⟩
  rw [Terms.closedForm?_curve hrow]
  simp [Term.valueAt, Monomial.valueAt, Factor.value, Factor.signed, Factor.magnitude, hplain,
    Scalar.ofNumeral]

/-- Whether the polynomial of a right side has another real value at zero than the expression of the
same text. -/
def ReadsOtherPolynomial (right : List Char) : Prop :=
  ∃ (p q : Plot) (exact : Curve ℝ),
    ReadingRules.standard.read (String.ofList ('y' :: '=' :: right)) = .ok p ∧
    p.family = .linear ∧
    ReadingRules.standard.read (String.ofList ('e' :: 'x' :: 'p' :: 'r' :: ':' :: right)) = .ok q ∧
    readPolynomial (Signs.normalize right) = .ok (some exact) ∧
    exact.closedForm? 0 ≠ q.curve.real? 0

/-- With its blank taken out `1 2` is twelve, while the expression is a product, two; and `2e--3` is
two thousand with its signs joined, while the expression is the sum of `2e` and three. -/
theorem not_readPolynomial_and_real?_eq :
    ReadsOtherPolynomial ['1', ' ', '2'] ∧ ReadsOtherPolynomial ['2', 'e', '-', '-', '3'] := by
  constructor
  · have hp : (ReadingRules.standard.read "y=1 2").toOption.map Plot.family = some .linear := by
      decide +kernel
    have hq : (ReadingRules.standard.read "expr:1 2").toOption.map Plot.curve =
        some (.expression ⟨"1 2", .binary .mul (.number ⟨1, 0⟩ ⟨0, 1⟩) (.number ⟨2, 0⟩ ⟨2, 3⟩)
          ⟨0, 3⟩⟩) := by decide +kernel
    obtain ⟨p, hp, hfamily⟩ := Option.map_eq_some_iff.mp hp
    obtain ⟨q, hq, hcurve⟩ := Option.map_eq_some_iff.mp hq
    have hnormal : Signs.normalize ['1', ' ', '2'] = ['1', '2'] := by
      rw [Signs.normalize, Signs.collapse_eq_joined]
      rfl
    have hterms : Terms.read ['1', '2'] =
        .ok [⟨⟨none, some ⟨['1', '2'], none, none⟩, false⟩, .one⟩] := by
      rw [Terms.read, ← hnormal, Signs.normalize_normalize, hnormal]
      rfl
    obtain ⟨exact, hexact, htwelve⟩ := exists_exact_of_number hterms rfl (by decide) (by decide)
    refine ⟨p, q, exact, eq_ok_of_toOption hp, hfamily, eq_ok_of_toOption hq,
      by rw [hnormal, hexact], ?_⟩
    have hproduct : q.curve.real? 0 = some (Scalar.ofNumeral ⟨1, 0⟩ * Scalar.ofNumeral ⟨2, 0⟩) := by
      rw [hcurve, Curve.real?, Expr.real?_eq_skeleton]
      exact Skeleton.real?_mul rfl rfl
    have hnumeral : Literal.numeral ⟨['1', '2'], none, none⟩ = ⟨12, 0⟩ := by decide
    rw [htwelve, hproduct, hnumeral]
    simp only [Scalar.ofNumeral, Numeral.value]
    norm_num
  · have hp : (ReadingRules.standard.read "y=2e--3").toOption.map Plot.family = some .linear := by
      decide +kernel
    have hq : (ReadingRules.standard.read "expr:2e--3").toOption.map Plot.curve =
        some (.expression ⟨"2e--3", .binary .sub (.binary .mul (.number ⟨2, 0⟩ ⟨0, 1⟩)
          (.constant .e ⟨1, 2⟩) ⟨0, 2⟩) (.negation (.number ⟨3, 0⟩ ⟨4, 5⟩) ⟨3, 5⟩) ⟨0, 5⟩⟩) := by
      decide +kernel
    obtain ⟨p, hp, hfamily⟩ := Option.map_eq_some_iff.mp hp
    obtain ⟨q, hq, hcurve⟩ := Option.map_eq_some_iff.mp hq
    have hnormal : Signs.normalize ['2', 'e', '-', '-', '3'] = ['2', 'e', '+', '3'] := by
      rw [Signs.normalize, Signs.collapse_eq_joined]
      rfl
    have hterms : Terms.read ['2', 'e', '+', '3'] =
        .ok [⟨⟨none, some ⟨['2'], none, some ⟨'e', some '+', ['3']⟩⟩, false⟩, .one⟩] := by
      rw [Terms.read, ← hnormal, Signs.normalize_normalize, hnormal]
      rfl
    obtain ⟨exact, hexact, hthousands⟩ := exists_exact_of_number hterms rfl (by decide) (by decide)
    refine ⟨p, q, exact, eq_ok_of_toOption hp, hfamily, eq_ok_of_toOption hq,
      by rw [hnormal, hexact], ?_⟩
    have hsum : q.curve.real? 0 =
        some (Scalar.ofNumeral ⟨2, 0⟩ * Real.exp 1 - -Scalar.ofNumeral ⟨3, 0⟩) := by
      rw [hcurve, Curve.real?, Expr.real?_eq_skeleton]
      simp [Expr.skeleton, Skeleton.real?, Operator.DefinedAt, Operator.apply, NamedConstant.value,
        Scalar.euler]
    have hnumeral : Literal.numeral ⟨['2'], none, some ⟨'e', some '+', ['3']⟩⟩ = ⟨2, 3⟩ := by decide
    rw [hthousands, hsum, hnumeral]
    simp only [Scalar.ofNumeral, Numeral.value]
    intro h
    have hexp := Real.exp_one_lt_d9
    have hvalue := Option.some.inj h
    norm_num at hvalue
    linarith

end CurvePlot
