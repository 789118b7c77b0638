import CurvePlot.Formula.Reading
import CurvePlot.Proofs.Formula.WrittenParameters

/-!
# One curve in two grammars

A polynomial of degree at most two, an exponential and a logarithm can be written behind a key, as a
list of parameters, or behind `y=`, as the expression that it is. Both are read as the same curve
over the same domain (`WrittenCurve.read_keyed_and_explicit`). The parameters behind `y=` of a
polynomial are sums that start from zero, which makes a negative zero a positive one; in number they
are the same.
-/

namespace CurvePlot

/-- A part of the right side of a formula. -/
inductive RightPart where
  /-- A parameter. -/
  | parameter (p : WrittenParameter)
  /-- A parameter that is added to what stands before it. -/
  | summand (p : WrittenParameter)
  /-- What stands between parameters. -/
  | symbols (text : List Char)
deriving DecidableEq, Repr

namespace RightPart

/-- The part as written, where `joined` says whether a plus before a minus has been left away. -/
def text (joined : Bool) : RightPart → List Char
  | parameter p => p.text
  | summand p => p.summand joined
  | symbols text => text

/-- A part of finite numbers, and visible symbols that are neither signs nor colons. -/
def WellFormed : RightPart → Prop
  | parameter p => p.WellFormed
  | summand p => p.WellFormed
  | symbols text => ∀ c ∈ text, Text.isGraphic c = true ∧ Signs.isSign c = false ∧ c ≠ ':'

end RightPart

/-- A curve as written: a family that both grammars know, and its parameters. -/
inductive WrittenCurve where
  /-- `a·x² + b·x + c` -/
  | quadratic (a b c : WrittenParameter)
  /-- `m·x + b` -/
  | linear (m b : WrittenParameter)
  /-- `a·e^(b·x)` -/
  | exponential (a b : WrittenParameter)
  /-- `a·ln x + b` -/
  | logarithmic (a b : WrittenParameter)
deriving DecidableEq, Repr

namespace WrittenCurve

/-- The family. -/
def family : WrittenCurve → Family
  | quadratic .. => .quadratic
  | linear .. => .linear
  | exponential .. => .exponential
  | logarithmic .. => .logarithmic

/-- The key that names the family. -/
def key : WrittenCurve → List Char
  | quadratic .. => ['q', 'u', 'a', 'd']
  | linear .. => ['l', 'i', 'n', 'e', 'a', 'r']
  | exponential .. => ['e', 'x', 'p']
  | logarithmic .. => ['l', 'o', 'g']

/-- The parameters in order. -/
def parameters : WrittenCurve → List WrittenParameter
  | quadratic a b c => [a, b, c]
  | linear m b => [m, b]
  | exponential a b => [a, b]
  | logarithmic a b => [a, b]

/-- The curve that is meant. -/
def curve : WrittenCurve → Curve Float
  | quadratic a b c => .quadratic a.value b.value c.value
  | linear m b => .linear m.value b.value
  | exponential a b => .exponential a.value b.value
  | logarithmic a b => .logarithmic a.value b.value

/-- The list of parameters. -/
def list (w : WrittenCurve) : List Char :=
  [','].intercalate (w.parameters.map WrittenParameter.text)

/-- The formula with a key, a list and a range. -/
def keyed (w : WrittenCurve) (range : List Char) : String :=
  String.ofList (w.key ++ ':' :: (w.list ++ ':' :: range))

/-- The parts of the right side of the formula behind `y=`. -/
def parts : WrittenCurve → List RightPart
  | quadratic a b c =>
    [.parameter a, .symbols ['*', 'x', '^', '2'], .summand b, .symbols ['*', 'x'], .summand c]
  | linear m b => [.parameter m, .symbols ['*', 'x'], .summand b]
  | exponential a b =>
    [.parameter a, .symbols ['*', 'e', '^', '('], .parameter b, .symbols ['*', 'x', ')']]
  | logarithmic a b =>
    [.parameter a, .symbols ['*', 'l', 'o', 'g', '(', 'x', ')'], .summand b]

/-- The right side, where `joined` says whether a plus before a minus has been left away. -/
def right (joined : Bool) (w : WrittenCurve) : List Char :=
  w.parts.flatMap (RightPart.text joined)

/-- The formula behind `y=`, with a range. -/
def explicit (joined : Bool) (w : WrittenCurve) (range : List Char) : String :=
  String.ofList (['y', '='] ++ (w.right joined ++ ':' :: range))

/-- A curve whose parameters both grammars can hold. -/
structure WellFormed (w : WrittenCurve) : Prop where
  /-- The parameters are finite numbers. -/
  parameter : ∀ p ∈ w.parameters, p.WellFormed
  /-- The explicit grammar can hold them. -/
  fits : ∀ p ∈ w.parameters, p.FitsIn w.family

end WrittenCurve

/-- The parameters of a curve in order; an expression has none. -/
def Curve.parameters {α : Type} : Curve α → List α
  | quadratic a b c => [a, b, c]
  | linear m b => [m, b]
  | sine amplitude frequency phase => [amplitude, frequency, phase]
  | cosine amplitude frequency phase => [amplitude, frequency, phase]
  | polar scale multiplier => [scale, multiplier]
  | exponential a b => [a, b]
  | logarithmic a b => [a, b]
  | expression _ => []

namespace RightPart

variable {part : RightPart}

/-- A part is visible. -/
theorem isGraphic_of_mem_text (hpart : part.WellFormed) {joined : Bool} {c : Char}
    (h : c ∈ part.text joined) : Text.isGraphic c = true := by
  cases part with
  | parameter p => exact WrittenParameter.isGraphic_of_mem_text hpart h
  | summand p => exact WrittenParameter.isGraphic_of_mem_summand hpart h
  | symbols text => exact (hpart c h).1

/-- No colon stands in a part. -/
theorem colon_not_mem_text (hpart : part.WellFormed) {joined : Bool} : ':' ∉ part.text joined := by
  intro hmem
  cases part with
  | parameter p =>
    rcases WrittenParameter.mem_text hpart hmem with h | h <;> exact absurd h (by decide)
  | summand p =>
    rcases WrittenParameter.mem_summand hpart hmem with h | h <;> exact absurd h (by decide)
  | symbols text => exact (hpart ':' hmem).2.2 rfl

/-- A character that no parameter has stands in a part only if it is one of the symbols. -/
theorem not_mem_text (hpart : part.WellFormed) {joined : Bool} {c : Char}
    (hc : c = '^' ∨ c = '(' ∨ c = 'y') (hsymbols : ∀ text, part = symbols text → c ∉ text) :
    c ∉ part.text joined := by
  cases part with
  | parameter p => exact WrittenParameter.not_mem_text hpart hc
  | summand p => exact WrittenParameter.not_mem_summand hpart hc
  | symbols text => exact hsymbols text rfl

/-- Joining signs takes the plus before a minus away. -/
theorem joined_text_append (hpart : part.WellFormed) (joined : Bool) (rest : List Char) :
    Signs.joined (part.text joined ++ rest) = part.text true ++ Signs.joined rest := by
  cases part with
  | parameter p => exact WrittenParameter.joined_text_append hpart rest
  | summand p => exact WrittenParameter.joined_summand_append hpart joined rest
  | symbols text =>
    have hsign : ∀ c ∈ text, Signs.isSign c = false := fun c hc => (hpart c hc).2.1
    exact Signs.joined_append (Signs.settled_of_not_isSign hsign) fun c hc =>
      hsign c (List.mem_of_mem_getLast? hc)

/-- So it does in a row of parts. -/
theorem joined_flatMap_text {parts : List RightPart} (hparts : ∀ part ∈ parts, part.WellFormed)
    (joined : Bool) : Signs.joined (parts.flatMap (text joined)) = parts.flatMap (text true) := by
  induction parts with
  | nil => rfl
  | cons part rest ih =>
    rw [List.flatMap_cons, List.flatMap_cons, joined_text_append (hparts part (by simp)),
      ih fun other hother => hparts other (by simp [hother])]

end RightPart

/-! ### Marks of exponentials and logarithms -/

/-- A text where only `x` is raised to powers holds no power of `e`. -/
theorem not_contains_exponentialMark {text : List Char}
    (h : text.IsChain fun c d => d = '^' → c = 'x') :
    Text.contains exponentialMark (Text.lower text) = false := by
  have hlower : (Text.lower text).IsChain fun c d => d = '^' → c = 'x' := by
    refine List.isChain_map_of_isChain Char.toLower (fun c d hcd hd => ?_) h
    rw [hcd (Text.eq_of_toLower_eq hd rfl)]
    rfl
  rw [Bool.eq_false_iff]
  intro hcontains
  obtain ⟨u, v, htext⟩ := Text.contains_iff.mp hcontains
  have hx := List.isChain_iff_forall_rel_of_append_cons_cons.mp hlower
    (show Text.lower text = u ++ 'e' :: '^' :: v by simp [← htext, exponentialMark]) rfl
  exact absurd hx (by decide)

/-- A text without powers is one where only `x` is raised to powers. -/
theorem isChain_of_not_mem_power {text : List Char} (h : '^' ∉ text) :
    text.IsChain fun c d => d = '^' → c = 'x' := by
  rw [List.isChain_iff_forall_rel_of_append_cons_cons]
  rintro c d u v htext rfl
  exact absurd (by simp [htext]) h

/-- A text without parentheses holds no logarithm. -/
theorem not_contains_logarithmMark {text : List Char} (h : '(' ∉ text) :
    Text.contains logarithmMark (Text.lower text) = false := by
  rw [Bool.eq_false_iff]
  intro hcontains
  have hoccurs := Text.contains_iff.mp hcontains
  exact h (Text.mem_of_mem_lower rfl (hoccurs.subset (by simp [logarithmMark])))

/-- The first mark of an exponential stands behind a text without `e`. -/
theorem position_exponentialMark_append {front : List Char} (h : 'e' ∉ Text.lower front)
    (behind : List Char) :
    Text.position exponentialMark (Text.lower (front ++ (exponentialMark ++ behind))) =
      some front.length := by
  have hsplit : Text.lower (front ++ (exponentialMark ++ behind)) =
      Text.lower front ++ 'e' :: (['^'] ++ Text.lower behind) := by
    simp only [Text.lower, List.map_append, exponentialMark]
    rfl
  rw [hsplit, exponentialMark, Text.position_append h, Text.lower, List.length_map]

/-- The mark of a logarithm is found where it stands. -/
theorem contains_logarithmMark_append (front behind : List Char) :
    Text.contains logarithmMark (Text.lower (front ++ (logarithmMark ++ behind))) = true := by
  rw [Text.contains_iff]
  refine ⟨Text.lower front, Text.lower behind, ?_⟩
  simp only [Text.lower, List.map_append, List.append_assoc]
  rfl

/-! ### Formulas with a key -/

namespace WrittenCurve

variable {w : WrittenCurve} {rules : ReadingRules}

/-- What stands in a list of parameters. -/
theorem mem_list {c : Char} (h : c ∈ w.list) : c = ',' ∨ ∃ p ∈ w.parameters, c ∈ p.text := by
  cases w with
  | quadratic | linear | exponential | logarithmic =>
    simp only [list, parameters, List.map_cons, List.map_nil, List.intercalate_cons_cons,
      List.intercalate_singleton, List.mem_append, List.mem_singleton] at h
    simp only [parameters, List.mem_cons, List.not_mem_nil, or_false, exists_eq_or_imp,
      exists_eq_left]
    tauto

/-- A list of parameters is visible. -/
theorem isGraphic_of_mem_list (hw : w.WellFormed) {c : Char} (h : c ∈ w.list) :
    Text.isGraphic c = true := by
  rcases mem_list h with rfl | ⟨p, hp, hc⟩
  · decide
  · exact WrittenParameter.isGraphic_of_mem_text (hw.parameter p hp) hc

/-- The parameters of a list are read as their values. -/
theorem readValues_list (hw : w.WellFormed) (hrules : ∀ p ∈ w.parameters, rules.Admits p) :
    readValues rules w.list = w.parameters.map fun p => some p.value := by
  have htwo : 2 ≤ (w.parameters.map WrittenParameter.text).length := by
    cases w <;> simp [parameters]
  have hcomma : ∀ text ∈ w.parameters.map WrittenParameter.text, ',' ∉ text := by
    intro text htext hmem
    obtain ⟨p, hp, rfl⟩ := List.mem_map.mp htext
    rcases WrittenParameter.mem_text (hw.parameter p hp) hmem with hc | hc <;>
      exact absurd hc (by decide)
  rw [list, readValues_intercalate htwo hcomma, List.map_map]
  exact List.map_congr_left fun p hp =>
    WrittenParameter.readValue?_text (hw.parameter p hp) (hrules p hp)

/-- A range without parts in front of others changes no domain. -/
theorem domainOf_empty_cons (family : Family) (ranges : List PartialRange) :
    rules.domainOf family (⟨none, none, none⟩ :: ranges) = rules.domainOf family ranges := by
  simp [ReadingRules.domainOf]

/-- No colon stands in a list of parameters. -/
theorem colon_not_mem_list (hw : w.WellFormed) : ':' ∉ w.list := by
  intro hmem
  rcases mem_list hmem with hc | ⟨p, hp, hc⟩
  · cases hc
  · rcases WrittenParameter.mem_text (hw.parameter p hp) hc with hc | hc <;>
      exact absurd hc (by decide)

/-- The formula with a key is one of the keyed grammar. -/
theorem shape_keyed (hw : w.WellFormed) {range : List Char}
    (hrange : ∀ c ∈ range, Text.isBlank c = false) :
    Shape.ofFormula (w.keyed range).toList = .keyed w.family (w.list ++ ':' :: range) ∧
      Text.trim (w.keyed range).toList = (w.keyed range).toList := by
  have hkey : ∀ c ∈ w.key, Text.isBlank c = false := by
    cases w <;> simp [key] <;> decide
  have hcolon : ':' ∉ w.key := by
    cases w <;> simp [key]
  have hlower : Text.trim (Text.lower w.key) = w.key := by
    cases w <;> rfl
  have hfamily : Family.ofKey? (String.ofList w.key) = some w.family := by
    cases w <;> simp only [key, family] <;> decide
  have htrim : Text.trim (w.keyed range).toList = (w.keyed range).toList := by
    rw [keyed, String.toList_ofList]
    refine Text.trim_of_not_blank fun c hc => ?_
    simp only [List.mem_append, List.mem_cons] at hc
    rcases hc with hc | rfl | hc | rfl | hc
    · exact hkey c hc
    · decide
    · exact Text.not_isBlank_of_isGraphic (isGraphic_of_mem_list hw hc)
    · decide
    · exact hrange c hc
  refine ⟨?_, htrim⟩
  rw [Shape.ofFormula, htrim, keyed, String.toList_ofList]
  simp only [Text.cut_append_cons hcolon, hlower, hfamily]

/-- Behind the key, the list is read as the curve and the rest as the range. -/
theorem readKeyed_list (hw : w.WellFormed) (hrules : ∀ p ∈ w.parameters, rules.Admits p)
    (range : List Char) :
    rules.readKeyed w.family (w.list ++ ':' :: range) =
      .ok (w.curve, ⟨none, none, none⟩ :: rules.rangesOf (some range)) := by
  have hexpression : (w.family == .expression) = false := by cases w <;> rfl
  have hcount : w.family.parameterCount = w.parameters.length := by cases w <;> rfl
  have hcurve : Curve.ofValues? w.family (w.parameters.map fun p => some p.value) =
      some w.curve := by
    cases w <;> rfl
  simp only [ReadingRules.readKeyed, Text.cut_append_cons (colon_not_mem_list hw), hexpression,
    Bool.false_eq_true, if_false, readValues_list hw hrules, hcount]
  rw [List.take_of_length_le (by simp), List.drop_of_length_le (by simp), hcurve]
  rfl

/-- The formula with a key is read as the curve, over the family's domain with the range. -/
theorem read_keyed (hw : w.WellFormed) (hrules : ∀ p ∈ w.parameters, rules.Admits p)
    {range : List Char} (hrange : ∀ c ∈ range, Text.isBlank c = false) :
    rules.read (w.keyed range) =
      .ok ⟨w.curve, rules.domainOf w.family (rules.rangesOf (some range)), w.keyed range⟩ := by
  have hcurveFamily : w.curve.family = w.family := by cases w <;> rfl
  obtain ⟨hshape, htrim⟩ := shape_keyed hw hrange
  rw [ReadingRules.read, hshape, ReadingRules.readShape, readKeyed_list hw hrules, htrim,
    String.ofList_toList]
  simp only [hcurveFamily, domainOf_empty_cons]

/-! ### The right side behind `y=` -/

/-- The parts of a right side are well-formed. -/
theorem wellFormed_of_mem_parts (hw : w.WellFormed) : ∀ part ∈ w.parts, part.WellFormed := by
  have hparameter := hw.parameter
  cases w <;> simp [parameters] at hparameter <;>
    simp [parts, RightPart.WellFormed, hparameter] <;> decide

/-- The right side is visible. -/
theorem isGraphic_of_mem_right (hw : w.WellFormed) {joined : Bool} {c : Char}
    (h : c ∈ w.right joined) : Text.isGraphic c = true := by
  obtain ⟨part, hpart, hc⟩ := List.mem_flatMap.mp h
  exact RightPart.isGraphic_of_mem_text (wellFormed_of_mem_parts hw part hpart) hc

/-- A character that no parameter has stands in the right side only if it is one of the symbols. -/
theorem not_mem_right (hw : w.WellFormed) {joined : Bool} {c : Char}
    (hc : c = '^' ∨ c = '(' ∨ c = 'y')
    (hsymbols : ∀ text, RightPart.symbols text ∈ w.parts → c ∉ text) : c ∉ w.right joined := by
  intro hmem
  obtain ⟨part, hpart, hmem⟩ := List.mem_flatMap.mp hmem
  exact RightPart.not_mem_text (wellFormed_of_mem_parts hw part hpart) hc
    (fun text htext => hsymbols text (htext ▸ hpart)) hmem

/-- The right side with its signs joined. -/
theorem normalize_right (hw : w.WellFormed) (joined : Bool) :
    Signs.normalize (w.right joined) = w.right true := by
  rw [Signs.normalize_of_not_blank fun c hc =>
    Text.not_isBlank_of_isGraphic (isGraphic_of_mem_right hw hc)]
  exact RightPart.joined_flatMap_text (wellFormed_of_mem_parts hw) joined

/-- The curve that is read behind `y=`: the parameters of a polynomial are sums from zero on. -/
def explicitCurve : WrittenCurve → Curve Float
  | quadratic a b c => .quadratic (0 + a.value) (0 + b.value) (0 + c.value)
  | linear m b => .linear (0 + m.value) (0 + b.value)
  | exponential a b => .exponential a.value b.value
  | logarithmic a b => .logarithmic a.value b.value

/-- The sums start from zero. -/
theorem scalar_zero : (Scalar.zero : Float) = 0 := by decide +kernel

/-- In a parabola only `x` is raised to a power. -/
theorem isChain_right_quadratic {a b c : WrittenParameter}
    (hw : (quadratic a b c).WellFormed) :
    ((quadratic a b c).right true).IsChain fun c d => d = '^' → c = 'x' := by
  have hwell : ∀ p ∈ [a, b, c], p.WellFormed := hw.parameter
  have hfront : '^' ∉ a.text ++ ['*', 'x'] := by
    simp [WrittenParameter.not_mem_text (hwell a (by simp)) (Or.inl rfl)]
  have hback : '^' ∉ '2' :: (b.summand true ++ ['*', 'x'] ++ c.summand true) := by
    simp [WrittenParameter.not_mem_summand (hwell b (by simp)) (Or.inl rfl),
      WrittenParameter.not_mem_summand (hwell c (by simp)) (Or.inl rfl)]
  have hright : (quadratic a b c).right true = a.text ++ ['*'] ++
      'x' :: '^' :: ('2' :: (b.summand true ++ ['*', 'x'] ++ c.summand true)) := by
    simp [right, parts, RightPart.text]
  rw [hright, List.isChain_append_cons_cons, List.isChain_cons_cons]
  exact ⟨isChain_of_not_mem_power (by simpa using hfront), fun _ => rfl, by decide,
    isChain_of_not_mem_power hback⟩

/-- The right side of a parabola. -/
theorem readExplicit_quadratic {a b c : WrittenParameter} (hw : (quadratic a b c).WellFormed) :
    readExplicit rules ((quadratic a b c).right true) = .ok (quadratic a b c).explicitCurve := by
  have hwell : ∀ p ∈ [a, b, c], p.WellFormed := hw.parameter
  have htight : ∀ p ∈ [a, b, c], p.literal.Tight := fun p hp => by
    simpa [WrittenParameter.FitsIn, family] using hw.fits p hp
  have hright : (quadratic a b c).right true = a.text ++ ['*'] ++ ['x', '^', '2'] ++
      (b.summand true ++ ['*', 'x'] ++ c.summand true) := by
    simp [right, parts, RightPart.text]
  have hexponential := not_contains_exponentialMark (isChain_right_quadratic hw)
  have hlogarithm : Text.contains logarithmMark (Text.lower ((quadratic a b c).right true)) =
      false :=
    not_contains_logarithmMark (not_mem_right hw (by simp) (by simp [parts]))
  have hy : 'y' ∉ (quadratic a b c).right true := not_mem_right hw (by simp) (by simp [parts])
  have hsquare : Text.contains Monomial.square.symbol ((quadratic a b c).right true) = true := by
    rw [Text.contains_iff, hright]
    exact ⟨_, _, rfl⟩
  have hcollect : Terms.collect (α := Float) ((quadratic a b c).right true) =
      .ok ⟨0 + a.value, 0 + b.value, 0, 0 + c.value⟩ := by
    have hnormal : Signs.normalize ((quadratic a b c).right true) =
        (a.row .square [(b, .x), (c, .one)]).flatMap Term.text := by
      rw [normalize_right hw true, hright]
      simp [WrittenParameter.row, WrittenParameter.text_term_sign,
        WrittenParameter.text_term_joint, WrittenParameter.starred, Monomial.symbol]
    rw [WrittenParameter.collect_row (hwell a (by simp)) (htight a (by simp))
      (by simp [hwell, htight]) hnormal]
    simp [WrittenParameter.row, Terms.add, Terms.zero, scalar_zero, WrittenParameter.value_term,
      hwell]
  rw [readExplicit, hexponential, hlogarithm]
  simp [readPolynomial, hsquare, hy, hcollect, explicitCurve]

/-- The right side of a line. -/
theorem readExplicit_linear {m b : WrittenParameter} (hw : (linear m b).WellFormed) :
    readExplicit rules ((linear m b).right true) = .ok (linear m b).explicitCurve := by
  have hwell : ∀ p ∈ [m, b], p.WellFormed := hw.parameter
  have htight : ∀ p ∈ [m, b], p.literal.Tight := fun p hp => by
    simpa [WrittenParameter.FitsIn, family] using hw.fits p hp
  have hpower : '^' ∉ (linear m b).right true := not_mem_right hw (by simp) (by simp [parts])
  have hexponential := not_contains_exponentialMark (isChain_of_not_mem_power hpower)
  have hlogarithm : Text.contains logarithmMark (Text.lower ((linear m b).right true)) = false :=
    not_contains_logarithmMark (not_mem_right hw (by simp) (by simp [parts]))
  have hsquare : Text.contains Monomial.square.symbol ((linear m b).right true) = false := by
    rw [Bool.eq_false_iff]
    intro hcontains
    exact hpower ((Text.contains_iff.mp hcontains).subset (by simp [Monomial.symbol]))
  have hcollect : Terms.collect (α := Float) ((linear m b).right true) =
      .ok ⟨0, 0 + m.value, 0, 0 + b.value⟩ := by
    have hnormal : Signs.normalize ((linear m b).right true) =
        (m.row .x [(b, .one)]).flatMap Term.text := by
      rw [normalize_right hw true]
      simp [right, parts, RightPart.text, WrittenParameter.row, WrittenParameter.text_term_sign,
        WrittenParameter.text_term_joint, WrittenParameter.starred, Monomial.symbol]
    rw [WrittenParameter.collect_row (hwell m (by simp)) (htight m (by simp))
      (by simp [hwell, htight]) hnormal]
    simp [WrittenParameter.row, Terms.add, Terms.zero, scalar_zero, WrittenParameter.value_term,
      hwell]
  have hzero : ((0 : Float) == 0) = true := rfl
  rw [readExplicit, hexponential, hlogarithm]
  simp [readPolynomial, hsquare, hcollect, scalar_zero, hzero, explicitCurve]

/-- The right side of an exponential. -/
theorem readExplicit_exponential {a b : WrittenParameter} (hw : (exponential a b).WellFormed) :
    readExplicit rules ((exponential a b).right true) = .ok (exponential a b).explicitCurve := by
  have hwell : ∀ p ∈ [a, b], p.WellFormed := hw.parameter
  have hpower : ∀ p ∈ [a, b], p.literal.power = none := fun p hp => by
    simpa [WrittenParameter.FitsIn, family] using hw.fits p hp
  have hright : (exponential a b).right true =
      a.text ++ ['*'] ++ (exponentialMark ++ '(' :: (b.text ++ ['*', 'x'] ++ [')'])) := by
    simp [right, parts, RightPart.text, exponentialMark]
  rw [hright]
  have hfront : 'e' ∉ Text.lower (a.text ++ ['*']) := by
    have htext := WrittenParameter.e_not_mem_lower_text (hwell a (by simp)) (hpower a (by simp))
    rw [Text.lower, List.map_append]
    exact List.not_mem_append htext (by decide)
  have hposition := position_exponentialMark_append hfront
    ('(' :: (b.text ++ ['*', 'x'] ++ [')']))
  have hcontains : Text.contains exponentialMark (Text.lower (a.text ++ ['*'] ++
      (exponentialMark ++ '(' :: (b.text ++ ['*', 'x'] ++ [')'])))) = true := by
    rw [Text.contains, hposition]
    rfl
  have hfirst : Factor.scan false (a.text ++ ['*']) = (⟨a.sign, some a.literal, true⟩, []) := by
    simpa using WrittenParameter.scan_starred (hwell a (by simp)) (hpower a (by simp)) []
  have hsecond : Factor.scan false (b.text ++ ['*', 'x']) =
      (⟨b.sign, some b.literal, true⟩, ['x']) := by
    simpa using WrittenParameter.scan_starred (hwell b (by simp)) (hpower b (by simp)) ['x']
  have hopen : openExponent? ('(' :: (b.text ++ ['*', 'x'] ++ [')'])) =
      some (b.text ++ ['*', 'x']) := by
    rw [openExponent?, List.getLast?_concat, List.dropLast_concat]
    rfl
  have hvalue : ∀ p ∈ [a, b],
      Factor.value (⟨p.sign, some p.literal, true⟩ : Factor) = p.value := fun p hp =>
    WrittenParameter.value_factor (hwell p hp) (Or.inl rfl) true
  have hdrop : (a.text ++ ['*'] ++ (exponentialMark ++ '(' :: (b.text ++ ['*', 'x'] ++ [')']))).drop
      ((a.text ++ ['*']).length + exponentialMark.length) =
        '(' :: (b.text ++ ['*', 'x'] ++ [')']) := by
    rw [← List.drop_drop, List.drop_left, List.drop_left]
  have hread : readExponential (α := Float) (a.text ++ ['*'] ++
      (exponentialMark ++ '(' :: (b.text ++ ['*', 'x'] ++ [')']))) =
        .ok (.exponential a.value b.value) := by
    simp only [readExponential, hposition, List.take_left, hdrop, hfirst, hopen, hsecond,
      hvalue a (by simp), hvalue b (by simp)]
    rfl
  rw [readExplicit, hcontains, if_pos rfl, hread]
  rfl

/-- The right side of a logarithm. -/
theorem readExplicit_logarithmic {a b : WrittenParameter} (hw : (logarithmic a b).WellFormed) :
    readExplicit rules ((logarithmic a b).right true) = .ok (logarithmic a b).explicitCurve := by
  have hwell : ∀ p ∈ [a, b], p.WellFormed := hw.parameter
  have hpower : ∀ p ∈ [a, b], p.literal.power = none := fun p hp => by
    simpa [WrittenParameter.FitsIn, family] using hw.fits p hp
  have hright : (logarithmic a b).right true =
      a.text ++ ['*'] ++ (logarithmMark ++ 'x' :: ')' :: b.summand true) := by
    simp [right, parts, RightPart.text, logarithmMark]
  have hnot : '^' ∉ (logarithmic a b).right true := not_mem_right hw (by simp) (by simp [parts])
  have hexponential := not_contains_exponentialMark (isChain_of_not_mem_power hnot)
  have hlogarithm : Text.contains logarithmMark (Text.lower ((logarithmic a b).right true)) =
      true := by
    rw [hright]
    exact contains_logarithmMark_append _ _
  have hscan : Factor.scan false ((logarithmic a b).right true) =
      (⟨a.sign, some a.literal, true⟩, logarithmMark ++ 'x' :: ')' :: b.summand true) := by
    rw [hright]
    exact WrittenParameter.scan_starred (hwell a (by simp)) (hpower a (by simp)) _
  have hoffset : readOffset? (b.summand true) =
      some (some ⟨some b.joint, some b.literal, false⟩) := by
    have hbehind := WrittenParameter.scan_summand (hwell b (by simp)) (hpower b (by simp))
    have hempty : (b.summand true).isEmpty = false := by simp [WrittenParameter.summand_true]
    simp [readOffset?, hempty, hbehind]
  have hform : readLogarithmForm? ((logarithmic a b).right true) =
      some ⟨⟨a.sign, some a.literal, true⟩, ['x'], some ⟨some b.joint, some b.literal, false⟩⟩ := by
    have hprefix :
        logarithmMark.isPrefixOf (logarithmMark ++ 'x' :: ')' :: b.summand true) = true := rfl
    have hinside : ('x' :: ')' :: b.summand true).dropWhile (fun c => c != '(' && c != ')') =
        ')' :: b.summand true := rfl
    have htake : ('x' :: ')' :: b.summand true).takeWhile (fun c => c != '(' && c != ')') =
        ['x'] := rfl
    simp only [readLogarithmForm?, hscan, hprefix, if_true, List.drop_left, hinside, htake, hoffset,
      Option.map_some]
  have hfactor : Factor.value (⟨a.sign, some a.literal, true⟩ : Factor) = a.value :=
    WrittenParameter.value_factor (hwell a (by simp)) (Or.inl rfl) true
  have hplain := Literal.isPlain_of_wellFormed (hwell b (by simp)).literal
  have hsummand : Factor.signed (some b.joint) (Scalar.ofNumeral b.literal.numeral : Float) =
      b.value := by
    have hvalue := WrittenParameter.value_factor (hwell b (by simp)) (Or.inr rfl) false
    simpa [Factor.value, Factor.magnitude, hplain] using hvalue
  have hbare : Text.trim ['x'] = ['x'] := rfl
  rw [readExplicit, hexponential, hlogarithm]
  simp only [Bool.false_eq_true, if_false, if_true, readLogarithm, hform, hbare, beq_self_eq_true,
    hfactor, WrittenLogarithm.offsetValue, hplain, hsummand]
  rfl

/-! ### Both formulas -/

/-- A text with an equals sign is no key, nor a word that could be one. -/
theorem not_key_of_mem {key : List Char} (h : '=' ∈ key) :
    Family.ofKey? (String.ofList key) = none ∧ Shape.isWord key = false := by
  constructor
  · rw [Family.ofKey?, List.lookup_eq_none_iff]
    intro named hnamed
    have hnot : ∀ named ∈ Family.keys, '=' ∉ named.1.toList := by decide
    rw [bne_iff_ne]
    rintro heq
    exact hnot named hnamed (by rw [← heq, String.toList_ofList]; exact h)
  · rw [Shape.isWord, Bool.and_eq_false_iff]
    refine Or.inr (List.all_eq_false.mpr ⟨'=', h, ?_⟩)
    decide

/-- The formula behind `y=` is one of the explicit grammar. -/
theorem shape_explicit (hw : w.WellFormed) (joined : Bool) {range : List Char}
    (hrange : ∀ c ∈ range, Text.isBlank c = false) :
    Shape.ofFormula (w.explicit joined range).toList = .explicit (w.right true) (some range) ∧
      Text.trim (w.explicit joined range).toList = (w.explicit joined range).toList := by
  have hblank : ∀ c ∈ 'y' :: '=' :: (w.right joined ++ ':' :: range), Text.isBlank c = false := by
    intro c hc
    simp only [List.mem_cons, List.mem_append] at hc
    rcases hc with rfl | rfl | hc | rfl | hc
    · decide
    · decide
    · exact Text.not_isBlank_of_isGraphic (isGraphic_of_mem_right hw hc)
    · decide
    · exact hrange c hc
  have hcolon : ':' ∉ 'y' :: '=' :: w.right joined := by
    have hright : ':' ∉ w.right joined := fun hmem => by
      obtain ⟨part, hpart, hc⟩ := List.mem_flatMap.mp hmem
      exact RightPart.colon_not_mem_text (wellFormed_of_mem_parts hw part hpart) hc
    simpa using hright
  have hcut : Text.cut ':' ('y' :: '=' :: (w.right joined ++ ':' :: range)) =
      ('y' :: '=' :: w.right joined, some range) := Text.cut_append_cons hcolon
  have hequals : '=' ∈ Text.trim (Text.lower ('y' :: '=' :: w.right joined)) :=
    Text.mem_trim (by decide) (List.mem_map.mpr ⟨'=', by simp, rfl⟩)
  obtain ⟨hkey, hword⟩ := not_key_of_mem hequals
  have htrim := Text.trim_of_not_blank hblank
  have htext : (w.explicit joined range).toList =
      'y' :: '=' :: (w.right joined ++ ':' :: range) := by
    simp [explicit]
  have hcompact : Shape.ofCompact ('y' :: '=' :: (w.right joined ++ ':' :: range)) =
      .explicit (Signs.normalize (w.right joined)) (some range) := by
    rw [Shape.ofCompact, hcut]
    rfl
  rw [htext]
  refine ⟨?_, htrim⟩
  simp only [Shape.ofFormula, htrim, hcut, hkey, hword, Bool.false_eq_true, if_false]
  rw [Text.compact_of_not_blank hblank, hcompact, normalize_right hw]

/-- The formula behind `y=` is read as the curve from sums, over the family's domain with the
range. -/
theorem read_explicit (hw : w.WellFormed) (joined : Bool) {range : List Char}
    (hrange : ∀ c ∈ range, Text.isBlank c = false) :
    rules.read (w.explicit joined range) =
      .ok ⟨w.explicitCurve, rules.domainOf w.family (rules.rangesOf (some range)),
        w.explicit joined range⟩ := by
  have hread : readExplicit rules (w.right true) = .ok w.explicitCurve := by
    cases w with
    | quadratic a b c => exact readExplicit_quadratic hw
    | linear m b => exact readExplicit_linear hw
    | exponential a b => exact readExplicit_exponential hw
    | logarithmic a b => exact readExplicit_logarithmic hw
  have hfamily : w.explicitCurve.family = w.family := by cases w <;> rfl
  obtain ⟨hshape, htrim⟩ := shape_explicit hw joined hrange
  rw [ReadingRules.read, hshape, ReadingRules.readShape, hread, htrim, String.ofList_toList,
    ← hfamily]
  rfl

/-- The parameters of the two curves are equal in number. -/
theorem parameters_explicitCurve (hw : w.WellFormed) :
    List.Forall₂ (fun u v => (u == v) = true) w.curve.parameters w.explicitCurve.parameters := by
  have hfinite : ∀ p ∈ w.parameters, p.value.isFinite = true := fun p hp =>
    WrittenParameter.isFinite_value (hw.parameter p hp)
  have hsum : ∀ p ∈ w.parameters, (p.value == 0 + p.value) = true := fun p hp =>
    Double.beq_zero_add (hfinite p hp)
  have hsame : ∀ p ∈ w.parameters, (p.value == p.value) = true := fun p hp =>
    (Double.beq_iff (hfinite p hp) (hfinite p hp)).mpr rfl
  cases w with
  | quadratic a b c =>
    exact .cons (hsum a (by simp [parameters])) (.cons (hsum b (by simp [parameters]))
      (.cons (hsum c (by simp [parameters])) .nil))
  | linear a b =>
    exact .cons (hsum a (by simp [parameters])) (.cons (hsum b (by simp [parameters])) .nil)
  | exponential a b | logarithmic a b =>
    exact .cons (hsame a (by simp [parameters])) (.cons (hsame b (by simp [parameters])) .nil)

/-- A curve that is written behind a key and behind `y=`, with the same range, is read both times:
the family is that of the key, the parameters are the numbers that are written, and the domains are
the same. -/
theorem read_keyed_and_explicit (rules : ReadingRules) (w : WrittenCurve) (hw : w.WellFormed)
    (hrules : ∀ p ∈ w.parameters, rules.Admits p) (joined : Bool) (range : List Char)
    (hrange : ∀ c ∈ range, Text.isBlank c = false) :
    ∃ keyed explicit, rules.read (w.keyed range) = .ok keyed ∧
      rules.read (w.explicit joined range) = .ok explicit ∧
      keyed.curve = w.curve ∧ keyed.family = w.family ∧ explicit.family = w.family ∧
      List.Forall₂ (fun u v => (u == v) = true) keyed.curve.parameters
        explicit.curve.parameters ∧
      keyed.domain = explicit.domain := by
  refine ⟨_, _, read_keyed hw hrules hrange, read_explicit hw joined hrange, rfl, ?_, ?_,
    parameters_explicitCurve hw, rfl⟩
  · cases w <;> rfl
  · cases w <;> rfl

/-- A parabola with powers of ten, where minus signs have taken the place of the plus. -/
theorem read_keyed_and_explicit_parabola :
    ∃ keyed explicit,
      ReadingRules.standard.read "quad:-1e-5,.5,-2E3:0,1" = .ok keyed ∧
      ReadingRules.standard.read "y=-1e-5*x^2+.5*x-2E3:0,1" = .ok explicit ∧
      List.Forall₂ (fun u v => (u == v) = true) keyed.curve.parameters
        explicit.curve.parameters ∧
      keyed.domain = explicit.domain := by
  let a : WrittenParameter := ⟨true, ⟨['1'], none, some ⟨'e', some '-', ['5']⟩⟩⟩
  let b : WrittenParameter := ⟨false, ⟨[], some ['5'], none⟩⟩
  let c : WrittenParameter := ⟨true, ⟨['2'], none, some ⟨'E', none, ['3']⟩⟩⟩
  have hscan : ∀ l ∈ [a.literal, b.literal, c.literal],
      Literal.scan? Text.isAsciiDigit l.text = some (l, []) := by decide
  have hfinite : ∀ l ∈ [a.literal, b.literal, c.literal], l.toFloat.isFinite = true := by
    decide +kernel
  have ha : a.WellFormed := ⟨Literal.wellFormed_of_scan? (hscan _ (by simp)), hfinite _ (by simp)⟩
  have hb : b.WellFormed := ⟨Literal.wellFormed_of_scan? (hscan _ (by simp)), hfinite _ (by simp)⟩
  have hc : c.WellFormed := ⟨Literal.wellFormed_of_scan? (hscan _ (by simp)), hfinite _ (by simp)⟩
  have hw : (quadratic a b c).WellFormed := by
    refine ⟨by simp [parameters, ha, hb, hc], ?_⟩
    simp [parameters, WrittenParameter.FitsIn, family, Literal.Tight, a, b, c]
  have hrules : ∀ p ∈ (quadratic a b c).parameters, ReadingRules.standard.Admits p := by
    intro p hp
    refine ⟨by rintro s ⟨⟩, ?_⟩
    revert p
    decide +kernel
  have hrange : ∀ d ∈ ['0', ',', '1'], Text.isBlank d = false := fun d hd =>
    Text.not_isBlank_of_isGraphic
      (List.all_eq_true.mp (rfl : ['0', ',', '1'].all Text.isGraphic = true) d hd)
  obtain ⟨keyed, explicit, hkeyed, hexplicit, -, -, -, hparameters, hdomain⟩ :=
    read_keyed_and_explicit ReadingRules.standard (quadratic a b c) hw hrules true ['0', ',', '1']
      hrange
  exact ⟨keyed, explicit, hkeyed, hexplicit, hparameters, hdomain⟩

end WrittenCurve

end CurvePlot
