import CurvePlot.Plot.Sample
import CurvePlot.Proofs.Formula.LayeredRange
import CurvePlot.Proofs.Formula.NormalizedDomain
import CurvePlot.Proofs.Formula.WrittenExpression

/-!
# Closed forms and expressions have the same samples

A curve with a closed form can be written behind the key of its family, as a list of numbers, or
behind `expr:`, as the expression of its closed form. The closed form is checked once, at the end,
and the expression in each of its parts, which comes to the same as far as sums and products go
(`WrittenForm.sample?_expression`). A range with all its parts gives both formulas the same grid
(`Domain.WellFormed.normalized_eq`), so the samples are the same.

Nothing is known of the sine, the cosine and the logarithm of the doubles. What is assumed of them
stands in `WrittenForm.AssumedAt`, for the points of the grid alone.
-/

namespace CurvePlot

/-! ### Curves as they are written -/

/-- A curve as written: a family with a closed form, and its numbers. -/
inductive WrittenForm where
  /-- `a·x² + b·x + c` -/
  | quadratic (a b c : SignedLiteral)
  /-- `m·x + b` -/
  | linear (m b : SignedLiteral)
  /-- `amplitude·sin(frequency·x + phase)` -/
  | sine (amplitude frequency phase : SignedLiteral)
  /-- `amplitude·cos(frequency·x + phase)` -/
  | cosine (amplitude frequency phase : SignedLiteral)
  /-- `a·ln x + b` -/
  | logarithmic (a b : SignedLiteral)
deriving DecidableEq, Repr

namespace WrittenForm

/-- The family. -/
def family : WrittenForm → Family
  | quadratic .. => .quadratic
  | linear .. => .linear
  | sine .. => .sine
  | cosine .. => .cosine
  | logarithmic .. => .logarithmic

/-- The key that names the family. -/
def key : WrittenForm → List Char
  | quadratic .. => ['q', 'u', 'a', 'd']
  | linear .. => ['l', 'i', 'n', 'e', 'a', 'r']
  | sine .. => ['s', 'i', 'n', 'e']
  | cosine .. => ['c', 'o', 's', 'i', 'n', 'e']
  | logarithmic .. => ['l', 'o', 'g']

/-- The numbers in order. -/
def numbers : WrittenForm → List SignedLiteral
  | quadratic a b c => [a, b, c]
  | linear m b => [m, b]
  | sine amplitude frequency phase => [amplitude, frequency, phase]
  | cosine amplitude frequency phase => [amplitude, frequency, phase]
  | logarithmic a b => [a, b]

/-- The curve that is meant. -/
def curve : WrittenForm → Curve Float
  | quadratic a b c => .quadratic a.value b.value c.value
  | linear m b => .linear m.value b.value
  | sine amplitude frequency phase => .sine amplitude.value frequency.value phase.value
  | cosine amplitude frequency phase => .cosine amplitude.value frequency.value phase.value
  | logarithmic a b => .logarithmic a.value b.value

/-- The closed form as an expression: `A*x*x+B*x+C`, `A*x+B`, `A*sin(F*x+P)`, `A*cos(F*x+P)` or
`A*log(x)+B`. -/
def body : WrittenForm → List Char
  | quadratic a b c =>
    a.text ++ ['*', 'x'] ++ ['*', 'x'] ++ '+' :: (b.text ++ ['*', 'x']) ++ '+' :: c.text
  | linear m b => m.text ++ ['*', 'x'] ++ '+' :: b.text
  | sine amplitude frequency phase =>
    amplitude.text ++ '*' :: ("sin".toList ++
      '(' :: (frequency.text ++ ['*', 'x'] ++ '+' :: phase.text ++ [')']))
  | cosine amplitude frequency phase =>
    amplitude.text ++ '*' :: ("cos".toList ++
      '(' :: (frequency.text ++ ['*', 'x'] ++ '+' :: phase.text ++ [')']))
  | logarithmic a b =>
    a.text ++ '*' :: ("log".toList ++ '(' :: (['x'] ++ [')'])) ++ '+' :: b.text

/-- The expression without the places of its parts. -/
def skeleton : WrittenForm → Skeleton Numeral
  | quadratic a b c =>
    .binary .add (.binary .add (.binary .mul (.binary .mul a.skeleton .var) .var)
      (.binary .mul b.skeleton .var)) c.skeleton
  | linear m b => .binary .add (.binary .mul m.skeleton .var) b.skeleton
  | sine amplitude frequency phase =>
    .binary .mul amplitude.skeleton
      (.call .sin (.binary .add (.binary .mul frequency.skeleton .var) phase.skeleton))
  | cosine amplitude frequency phase =>
    .binary .mul amplitude.skeleton
      (.call .cos (.binary .add (.binary .mul frequency.skeleton .var) phase.skeleton))
  | logarithmic a b => .binary .add (.binary .mul a.skeleton (.call .log .var)) b.skeleton

/-- The formula with the key of the family, the list of the numbers, and a range. -/
def keyed (w : WrittenForm) (range : List Char) : String :=
  String.ofList (w.key ++ ':' :: ([','].intercalate (w.numbers.map SignedLiteral.text) ++
    ':' :: range))

/-- The formula with the closed form as an expression, and a range. -/
def asExpression (w : WrittenForm) (range : List Char) : String :=
  String.ofList (['e', 'x', 'p', 'r'] ++ ':' :: (w.body ++ ':' :: range))

/-- What is assumed at a point: the sine and the cosine of what is not finite are not finite, nor is
the logarithm at zero and below. -/
def AssumedAt (w : WrittenForm) (x : Float) : Prop :=
  match w with
  | quadratic .. | linear .. => True
  | sine _ frequency phase =>
    (frequency.value * x + phase.value).isFinite = false →
      (frequency.value * x + phase.value).sin.isFinite = false
  | cosine _ frequency phase =>
    (frequency.value * x + phase.value).isFinite = false →
      (frequency.value * x + phase.value).cos.isFinite = false
  | logarithmic _ _ => x ≤ 0 → x.log.isFinite = false

end WrittenForm

/-! ### Numbers in lists -/

/-- The settings under which a text in a list is taken as it stands. -/
structure ReadingRules.LeavesAlone (rules : ReadingRules) (text : List Char) : Prop where
  /-- The character between groups of digits does not stand in it. -/
  separator : ∀ s ∈ rules.groupSeparator, s ∉ text
  /-- It is no word for a missing value. -/
  word : rules.isMissingWord text = false

namespace SignedLiteral

variable {p : SignedLiteral} {rules : ReadingRules}

/-- A signed number in a list is read as its value. -/
theorem readValue?_text (hp : p.WellFormed) (hrules : rules.LeavesAlone p.text) :
    readValue? rules p.text = some p.value :=
  readValue?_of_read? hrules.separator hrules.word (text_ne_nil hp)
    (fun c hc => Text.not_isBlank_of_isGraphic ((Writes.number hp.ascii).isGraphic_of_mem c hc).1)
    (Double.read?_append_text hp.sign hp.literal) (isFinite_value hp)

/-- Neither a comma nor a colon stands in a signed number. -/
theorem not_mem_text (hp : p.WellFormed) {c : Char} (hc : c = ',' ∨ c = ':') : c ∉ p.text := by
  intro hmem
  rcases hc with rfl | rfl <;> rcases mem_text hp.ascii hmem with h | h <;>
    exact absurd h (by decide)

/-- Two or more signed numbers in a list are read as their values. -/
theorem readValues_texts {ps : List SignedLiteral} (htwo : 2 ≤ ps.length)
    (hps : ∀ p ∈ ps, p.WellFormed ∧ rules.LeavesAlone p.text) :
    readValues rules ([','].intercalate (ps.map text)) = ps.map fun p => some p.value := by
  have hcomma : ∀ t ∈ ps.map text, ',' ∉ t := by
    intro t ht
    obtain ⟨p, hp, rfl⟩ := List.mem_map.mp ht
    exact not_mem_text (hps p hp).1 (Or.inl rfl)
  rw [readValues_intercalate (by rwa [List.length_map]) hcomma, List.map_map]
  exact List.map_congr_left fun p hp => readValue?_text (hps p hp).1 (hps p hp).2

end SignedLiteral

/-! ### Ranges with all their parts -/

/-- Whether a text gives all parts of a range. -/
def ReadingRules.Gives (rules : ReadingRules) (range : List Char) (d : Domain) : Prop :=
  PartialRange.ofValues (readValues rules range) = ⟨some d.min, some d.max, some d.step⟩

namespace ReadingRules

variable {rules : ReadingRules} {range : List Char} {d : Domain}

/-- A range with all its parts, being the last one, is the domain before it is normalized. -/
theorem Gives.domainOf_eq (h : rules.Gives range d) (family : Family)
    (ranges : List PartialRange) :
    rules.domainOf family (ranges ++ rules.rangesOf (some range)) =
      d.normalized family rules.maxSamples := by
  have hlast : rules.rangesOf (some range) = [⟨some d.min, some d.max, some d.step⟩] :=
    congrArg (fun r => [r]) h
  rw [domainOf, hlast, ← List.append_assoc, List.foldl_concat]
  rfl

/-- Three signed numbers give all parts of a range. -/
theorem gives_intercalate {first last step : SignedLiteral}
    (h : ∀ p ∈ [first, last, step], p.WellFormed ∧ rules.LeavesAlone p.text) :
    rules.Gives ([','].intercalate [first.text, last.text, step.text])
      ⟨first.value, last.value, step.value⟩ := by
  have hvalues := SignedLiteral.readValues_texts (by simp) h
  exact congrArg PartialRange.ofValues hvalues

/-- What stands between the key of expressions and the range is read as an expression. -/
theorem exists_read_expression {source : List Char} {e : Expression}
    (hsource : ∀ c ∈ source, Text.isGraphic c = true ∧ c ≠ ':')
    (he : Expression.ofText source = .ok e) (hrange : rules.Gives range d) :
    ∃ p, rules.read (String.ofList (['e', 'x', 'p', 'r'] ++ ':' :: (source ++ ':' :: range))) =
        .ok p ∧
      p.curve = .expression e ∧ p.domain = d.normalized .expression rules.maxSamples := by
  have hcolon : ':' ∉ source := fun hmem => (hsource ':' hmem).2 rfl
  have htrim : Text.trim source = source :=
    Text.trim_of_not_blank fun c hc => Text.not_isBlank_of_isGraphic (hsource c hc).1
  have hempty : source.isEmpty = false := by
    cases source with
    | nil =>
      have hrefused : (Expression.ofText []).isOk = false := by decide +kernel
      rw [he] at hrefused
      cases hrefused
    | cons c rest => rfl
  have hkeyed : rules.readKeyed .expression (source ++ ':' :: range) =
      .ok (.expression e, rules.rangesOf (some range)) := by
    simp [readKeyed, Text.cut_append_cons hcolon, htrim, hempty, readExpression, he, Except.map]
  have hshape : rules.readShape
      (Shape.ofFormula (['e', 'x', 'p', 'r'] ++ ':' :: (source ++ ':' :: range))) =
        rules.readKeyed .expression (source ++ ':' :: range) :=
    readShape_ofFormula_of_key (by decide) (by decide)
  simp only [read, String.toList_ofList, hshape, hkeyed]
  exact ⟨_, rfl, rfl, hrange.domainOf_eq .expression []⟩

end ReadingRules

/-! ### Samples of closed forms -/

/-- A finite value is checked once more in the sample. -/
theorem Sample.bind_finite? (x y : Float) :
    (Double.finite? y).bind (Sample.finite? x) = Sample.finite? x y := by
  unfold Double.finite?
  split
  · rfl
  · next hy => simp [Sample.finite?, hy]

/-- An expression is sampled where it has a double. -/
theorem Curve.sample?_expression (e : Expression) (x : Float) :
    (Curve.expression e).sample? x = (e.tree.skeleton.double? x).bind (Sample.finite? x) := by
  rw [← Expr.toOption_evaluate]
  simp only [sample?, expressionSample?, Expression.doubles]
  split
  · next y hy => rw [hy]; rfl
  · next error hy => rw [hy]; rfl

namespace WrittenForm

variable {w : WrittenForm} {rules : ReadingRules}

/-- A curve whose numbers are finite. -/
def WellFormed (w : WrittenForm) : Prop :=
  ∀ p ∈ w.numbers, p.WellFormed

/-- The expression is written on few levels. -/
theorem writes_body (hw : w.WellFormed) :
    ∃ n, n < nestingLimit ∧ Writes .expr n w.body w.skeleton := by
  have hnumber : ∀ {p : SignedLiteral}, p.WellFormed → Writes .term 1 p.text p.skeleton :=
    fun hp => .lift (by decide) (.number hp.ascii)
  have hvar : Writes .unary 0 ['x'] .var := .lift (by decide) .var
  have hproduct : ∀ {p : SignedLiteral}, p.WellFormed →
      Writes .term 2 (p.text ++ ['*', 'x']) (.binary .mul p.skeleton .var) :=
    fun hp => .product (hnumber hp) hvar
  have hsum : ∀ {p q : SignedLiteral}, p.WellFormed → q.WellFormed →
      Writes .expr 3 (p.text ++ ['*', 'x'] ++ '+' :: q.text)
        (.binary .add (.binary .mul p.skeleton .var) q.skeleton) :=
    fun hp hq => .sum (.lift (by decide) (hproduct hp)) (hnumber hq)
  have hscaled : ∀ (f : NamedFunction) {p : SignedLiteral} {n : ℕ} {text : List Char}
      {t : Skeleton Numeral}, p.WellFormed → Writes .expr n text t →
      Writes .term (max 1 (n + 1) + 1)
        (p.text ++ '*' :: (f.name.toList ++ '(' :: (text ++ [')'])))
        (.binary .mul p.skeleton (.call f t)) :=
    fun f _ _ _ _ hp h => .product (hnumber hp) (.lift (by decide) (.call f h))
  cases w with
  | quadratic a b c =>
    obtain ⟨ha, hb, hc⟩ : a.WellFormed ∧ b.WellFormed ∧ c.WellFormed := by
      simpa [WellFormed, numbers] using hw
    have hsquare := Writes.product (hproduct ha) hvar
    exact ⟨5, by decide, .sum (.sum (.lift (by decide) hsquare) (hproduct hb)) (hnumber hc)⟩
  | linear m b =>
    obtain ⟨hm, hb⟩ : m.WellFormed ∧ b.WellFormed := by simpa [WellFormed, numbers] using hw
    exact ⟨3, by decide, hsum hm hb⟩
  | sine amplitude frequency phase =>
    obtain ⟨ha, hf, hp⟩ : amplitude.WellFormed ∧ frequency.WellFormed ∧ phase.WellFormed := by
      simpa [WellFormed, numbers] using hw
    exact ⟨5, by decide, .lift (by decide) (hscaled .sin ha (hsum hf hp))⟩
  | cosine amplitude frequency phase =>
    obtain ⟨ha, hf, hp⟩ : amplitude.WellFormed ∧ frequency.WellFormed ∧ phase.WellFormed := by
      simpa [WellFormed, numbers] using hw
    exact ⟨5, by decide, .lift (by decide) (hscaled .cos ha (hsum hf hp))⟩
  | logarithmic a b =>
    obtain ⟨ha, hb⟩ : a.WellFormed ∧ b.WellFormed := by simpa [WellFormed, numbers] using hw
    have hcall := hscaled .log ha (.lift (by decide) .var)
    exact ⟨3, by decide, .sum (.lift (by decide) hcall) (hnumber hb)⟩

/-- A function of a line, times an amplitude, is finite in all parts if it is at all. -/
theorem double?_wave {amplitude frequency phase : SignedLiteral} (f : NamedFunction) {x : Float}
    (hstrict : (frequency.value * x + phase.value).isFinite = false →
      (f.apply (frequency.value * x + phase.value)).isFinite = false) :
    (Skeleton.binary .mul amplitude.skeleton
      (.call f (.binary .add (.binary .mul frequency.skeleton .var) phase.skeleton))).double? x =
        Double.finite? (amplitude.value * f.apply (frequency.value * x + phase.value)) := by
  have hvar : Skeleton.var.double? x = Double.finite? x := rfl
  have hangle := Skeleton.double?_add
    (Skeleton.double?_mul (frequency.double?_skeleton x) hvar) (phase.double?_skeleton x)
  exact Skeleton.double?_mul (amplitude.double?_skeleton x)
    (Skeleton.double?_call hstrict hangle)

/-- At a point of the assumption the expression has the sample of the closed form. -/
theorem sample?_expression {e : Expression} (he : e.tree.skeleton = w.skeleton) {x : Float}
    (hx : w.AssumedAt x) :
    (Curve.expression e).sample? x = w.curve.sample? x := by
  have hvar : Skeleton.var.double? x = Double.finite? x := rfl
  rw [Curve.sample?_expression, he]
  cases w with
  | quadratic a b c =>
    have hsquare := Skeleton.double?_mul (Skeleton.double?_mul (a.double?_skeleton x) hvar) hvar
    have hline := Skeleton.double?_mul (b.double?_skeleton x) hvar
    have hvalue := Skeleton.double?_add (Skeleton.double?_add hsquare hline)
      (c.double?_skeleton x)
    rw [skeleton, hvalue, Sample.bind_finite?]
    rfl
  | linear m b =>
    have hvalue := Skeleton.double?_add (Skeleton.double?_mul (m.double?_skeleton x) hvar)
      (b.double?_skeleton x)
    rw [skeleton, hvalue, Sample.bind_finite?]
    rfl
  | sine amplitude frequency phase =>
    rw [skeleton, double?_wave .sin hx, Sample.bind_finite?]
    rfl
  | cosine amplitude frequency phase =>
    rw [skeleton, double?_wave .cos hx, Sample.bind_finite?]
    rfl
  | logarithmic a b =>
    cases hfinite : x.isFinite with
    | false =>
      -- Neither has a sample at a point that is not finite.
      have hnone : Sample.finite? x = fun _ => none := by
        funext y
        simp [Sample.finite?, hfinite]
      simp [curve, Curve.sample?, hnone]
    | true =>
      have hcall : (Skeleton.call .log .var).double? x = Double.finite? x.log := by
        rw [Skeleton.double?, hvar, Double.finite?_of_isFinite hfinite]
        rfl
      have hvalue := Skeleton.double?_add
        (Skeleton.double?_mul (a.double?_skeleton x) hcall) (b.double?_skeleton x)
      rw [skeleton, hvalue, Sample.bind_finite?]
      by_cases hpos : x > 0
      · simp [curve, Curve.sample?, hpos]
      · have hle : x ≤ 0 := by
          rw [gt_iff_lt, Double.lt_iff Double.value_zero.1 hfinite, not_lt] at hpos
          exact (Double.le_iff hfinite Double.value_zero.1).mpr hpos
        have hinfinite : ¬(a.value * x.log + b.value).isFinite = true := by
          intro hsum
          have hlog := (Double.isFinite_of_mul (Double.isFinite_of_add hsum).1).2
          rw [hx hle] at hlog
          cases hlog
        simp [curve, Curve.sample?, hpos, Sample.finite?, hinfinite]

/-! ### Both formulas -/

/-- The formula with a key is read as the curve, over the range if it has all its parts. -/
theorem exists_read_keyed (hw : w.WellFormed)
    (hrules : ∀ p ∈ w.numbers, rules.LeavesAlone p.text) {range : List Char} {d : Domain}
    (hrange : rules.Gives range d) :
    ∃ p, rules.read (w.keyed range) = .ok p ∧ p.curve = w.curve ∧
      p.domain = d.normalized w.family rules.maxSamples := by
  have hkey : ':' ∉ w.key ∧
      Family.ofKey? (String.ofList (Text.trim (Text.lower w.key))) = some w.family ∧
        w.family ≠ .expression := by
    cases w <;> simp only [key, family] <;> decide
  have htwo : 2 ≤ w.numbers.length := by cases w <;> simp [numbers]
  have hcount : w.numbers.length = w.family.parameterCount := by cases w <;> rfl
  have hcolon : ':' ∉ [','].intercalate (w.numbers.map SignedLiteral.text) := by
    refine Text.not_mem_intercalate (by decide) fun t ht => ?_
    obtain ⟨p, hp, rfl⟩ := List.mem_map.mp ht
    exact SignedLiteral.not_mem_text (hw p hp) (Or.inr rfl)
  have hvalues : readValues rules ([','].intercalate (w.numbers.map SignedLiteral.text)) =
      w.numbers.map fun p => some p.value :=
    SignedLiteral.readValues_texts htwo fun p hp => ⟨hw p hp, hrules p hp⟩
  have hcut : Text.cut ':' ([','].intercalate (w.numbers.map SignedLiteral.text) ++
      ':' :: range) = ([','].intercalate (w.numbers.map SignedLiteral.text), some range) :=
    Text.cut_append_cons hcolon
  obtain ⟨p, hread, hcurve, hdomain⟩ :=
    rules.exists_read_of_key hkey.1 hkey.2.1 hkey.2.2 hcut
  rw [hvalues, List.take_of_length_le (by simp [hcount])] at hcurve
  refine ⟨p, hread, ?_, hdomain.trans (hrange.domainOf_eq w.family [_])⟩
  have hmeant : Curve.ofValues? w.family (w.numbers.map fun p => some p.value) = some w.curve := by
    cases w <;> rfl
  exact Option.some.inj (hcurve.symm.trans hmeant)

/-- A curve that is written behind the key of its family and as an expression, with the same range
that has all its parts, has the same samples both times. Three signed numbers are such a range. -/
theorem sample_keyed_and_asExpression (rules : ReadingRules) (w : WrittenForm) (hw : w.WellFormed)
    (hrules : ∀ p ∈ w.numbers, rules.LeavesAlone p.text) :
    (∀ (range : List Char) (d : Domain), rules.Gives range d → d.WellFormed →
      (∀ x ∈ (d.normalized w.family rules.maxSamples).points, w.AssumedAt x) →
        ∃ s t, rules.sample (w.keyed range) = .ok s ∧
          rules.sample (w.asExpression range) = .ok t ∧ s.samples = t.samples) ∧
    ∀ first last step : SignedLiteral,
      (∀ p ∈ [first, last, step], p.WellFormed ∧ rules.LeavesAlone p.text) →
        rules.Gives ([','].intercalate [first.text, last.text, step.text])
          ⟨first.value, last.value, step.value⟩ := by
  refine ⟨fun range d hrange hd hassumed => ?_, fun _ _ _ => ReadingRules.gives_intercalate⟩
  obtain ⟨n, hn, hwrites⟩ := writes_body hw
  obtain ⟨e, he, hskeleton⟩ := hwrites.exists_ofText hn
  obtain ⟨p, hp, hcurve, hdomain⟩ := exists_read_keyed hw hrules hrange
  obtain ⟨q, hq, hcurve', hdomain'⟩ :=
    ReadingRules.exists_read_expression hwrites.isGraphic_of_mem he hrange
  refine ⟨p.series, q.series, by rw [ReadingRules.sample, hp]; rfl,
    by rw [ReadingRules.sample, asExpression, hq]; rfl, ?_⟩
  rw [Plot.series, Plot.series, Curve.samples_eq, Curve.samples_eq, hcurve, hcurve', hdomain,
    hdomain', hd.normalized_eq .expression w.family]
  exact List.filterMap_congr fun x hx => (sample?_expression hskeleton (hassumed x hx)).symm

/-- A parabola that overflows at the last of three points, a sine of a line, and a logarithm at
positive points. -/
theorem sample_keyed_and_asExpression_overflowing :
    (∃ s t, ReadingRules.standard.sample "quad:-1e300,+2,.5:0,20000,10000" = .ok s ∧
      ReadingRules.standard.sample "expr:-1e300*x*x++2*x+.5:0,20000,10000" = .ok t ∧
      s.samples = t.samples) ∧
    (∃ s t, ReadingRules.standard.sample "sine:.5,+2,-1e300:0,20000,10000" = .ok s ∧
      ReadingRules.standard.sample "expr:.5*sin(+2*x+-1e300):0,20000,10000" = .ok t ∧
      s.samples = t.samples) ∧
    ∃ s t, ReadingRules.standard.sample "log:+2,-1e300:.5,20000,10000" = .ok s ∧
      ReadingRules.standard.sample "expr:+2*log(x)+-1e300:.5,20000,10000" = .ok t ∧
      s.samples = t.samples := by
  let a : SignedLiteral := ⟨some '-', ⟨['1'], none, some ⟨'e', none, ['3', '0', '0']⟩⟩⟩
  let b : SignedLiteral := ⟨some '+', ⟨['2'], none, none⟩⟩
  let c : SignedLiteral := ⟨none, ⟨[], some ['5'], none⟩⟩
  let first : SignedLiteral := ⟨none, ⟨['0'], none, none⟩⟩
  let last : SignedLiteral := ⟨none, ⟨['2', '0', '0', '0', '0'], none, none⟩⟩
  let step : SignedLiteral := ⟨none, ⟨['1', '0', '0', '0', '0'], none, none⟩⟩
  have hsign : ∀ p ∈ [a, b, c, first, last, step], ∀ s ∈ p.sign, s = '+' ∨ s = '-' := by
    simp [a, b, c, first, last, step]
  have hscan : ∀ p ∈ [a, b, c, first, last, step],
      Literal.scan? Text.isAsciiDigit p.literal.text = some (p.literal, []) := by decide
  have hfinite : ∀ p ∈ [a, b, c, first, last, step], p.literal.toFloat.isFinite = true := by
    decide +kernel
  have hword : ∀ p ∈ [a, b, c, first, last, step],
      ReadingRules.standard.isMissingWord p.text = false := by
    decide +kernel
  have hall : ∀ p ∈ [a, b, c, first, last, step],
      p.WellFormed ∧ ReadingRules.standard.LeavesAlone p.text := fun p hp =>
    ⟨⟨hsign p hp, Literal.wellFormed_of_scan? (hscan p hp), hfinite p hp⟩, by rintro s ⟨⟩,
      hword p hp⟩
  have hnumbers : ∀ ps : List SignedLiteral, ps ⊆ [a, b, c, first, last, step] →
      ∀ p ∈ ps, p.WellFormed ∧ ReadingRules.standard.LeavesAlone p.text :=
    fun _ hsub p hp => hall p (hsub hp)
  have hquadratic := hnumbers (quadratic a b c).numbers (by simp [numbers])
  have hsine := hnumbers (sine c b a).numbers (by simp [numbers])
  have hlogarithmic := hnumbers (logarithmic b a).numbers (by simp [numbers])
  have hrange := ReadingRules.gives_intercalate (hnumbers [first, last, step] (by simp))
  have hpositive := ReadingRules.gives_intercalate (hnumbers [c, last, step] (by simp))
  have hdomain : Domain.WellFormed ⟨first.value, last.value, step.value⟩ := by
    constructor <;> decide +kernel
  have hdomain' : Domain.WellFormed ⟨c.value, last.value, step.value⟩ := by
    constructor <;> decide +kernel
  have hangles : ∀ x ∈ (Domain.normalized ⟨first.value, last.value, step.value⟩ .sine
      ReadingRules.standard.maxSamples).points, (b.value * x + a.value).isFinite = true := by
    decide +kernel
  have hpoints : ∀ x ∈ (Domain.normalized ⟨c.value, last.value, step.value⟩ .logarithmic
      ReadingRules.standard.maxSamples).points, ¬x ≤ 0 := by
    decide +kernel
  refine ⟨?_, ?_, ?_⟩
  · exact (sample_keyed_and_asExpression ReadingRules.standard (quadratic a b c)
      (fun p hp => (hquadratic p hp).1) fun p hp => (hquadratic p hp).2).1 _ _ hrange hdomain
        fun _ _ => trivial
  · refine (sample_keyed_and_asExpression ReadingRules.standard (sine c b a)
      (fun p hp => (hsine p hp).1) fun p hp => (hsine p hp).2).1 _ _ hrange hdomain
        fun x hx hinfinite => ?_
    rw [hangles x hx] at hinfinite
    cases hinfinite
  · exact (sample_keyed_and_asExpression ReadingRules.standard (logarithmic b a)
      (fun p hp => (hlogarithmic p hp).1) fun p hp => (hlogarithmic p hp).2).1 _ _ hpositive
        hdomain' fun x hx hle => absurd hle (hpoints x hx)

end WrittenForm

end CurvePlot
