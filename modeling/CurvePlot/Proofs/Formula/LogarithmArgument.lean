import CurvePlot.Proofs.Expr.SourceText
import CurvePlot.Proofs.Formula.RealMeaning
import CurvePlot.Proofs.Formula.SignRuns
import CurvePlot.Proofs.Text.Cuts

/-!
# The argument of an explicit logarithm

The explicit grammar takes `log(x)` as a logarithm of the variable and any other `log(…)` as a
logarithm with a list of parameters in its parentheses. An argument such as `x+1` is no number, so
the list misses its only value and the default factor one stands in for it: whatever the argument
says, the curve read is that of `log(x)`.

`Logarithm.read_formula` is what is read, `Logarithm.keeps_iff` says for which arguments this is the
logarithm of the argument.
-/

namespace CurvePlot

/-! ### Texts that mention the variable -/

/-- No number mentions the variable. -/
theorem Double.read?_eq_none_of_mem {text : List Char} (h : 'x' ∈ text) : read? text = none := by
  have hrest : 'x' ∈ (splitSign text).2 := by
    cases text with
    | nil => cases h
    | cons c rest =>
      rw [splitSign]
      split
      · next hsign =>
        have hc : 'x' ≠ c := fun hc => absurd (hc ▸ hsign) (by decide)
        exact (List.mem_cons.mp h).resolve_left hc
      · exact h
  have hword : ∀ word : String, 'x' ∉ word.toList →
      ¬(String.ofList ((splitSign text).2.map Char.toLower) == word) = true := by
    intro word hword heq
    apply hword
    rw [← beq_iff_eq.mp heq, String.toList_ofList]
    exact List.mem_map.mpr ⟨'x', hrest, by decide⟩
  unfold read?
  rw [Option.map_eq_none_iff, readUnsigned?]
  split
  · next literal hscan =>
    have hmem := Literal.mem_text (c := 'x') (Literal.wellFormed_of_scan? hscan)
    rw [← Literal.scan?_text hscan, List.append_nil] at hrest
    exact absurd (hmem hrest) (by decide)
  · rfl
  · have hinf := hword "inf" (by decide)
    have hinfinity := hword "infinity" (by decide)
    have hnan := hword "nan" (by decide)
    simp only [Bool.not_eq_true] at hinf hinfinity hnan
    simp [hinf, hinfinity, hnan]

/-- No constant expression without parentheses mentions the variable. -/
theorem constantValue?_eq_none_of_mem {text : List Char} (h : 'x' ∈ text) (hopening : '(' ∉ text) :
    constantValue? text = none := by
  unfold constantValue?
  split
  · next e he =>
    rw [Expression.isConstant, Expression.hasVariable_of_mem he h hopening]
    rfl
  · rfl

/-- A value that mentions the variable is missing, unless the variable's letter separates groups of
digits. -/
theorem readValue?_eq_none_of_mem {rules : ReadingRules} {text : List Char}
    (hblank : ∀ c ∈ text, Text.isBlank c = false) (h : 'x' ∈ text) (hopening : '(' ∉ text)
    (hseparator : rules.groupSeparator ≠ some 'x') : readValue? rules text = none := by
  have hx : 'x' ∈ rules.ungrouped text := by
    unfold ReadingRules.ungrouped
    split
    · next separator hsome =>
      have hne : 'x' ≠ separator := fun heq => hseparator (heq ▸ hsome)
      exact List.mem_filter.mpr ⟨h, by simpa using hne⟩
    · exact h
  have hnot : '(' ∉ rules.ungrouped text := by
    unfold ReadingRules.ungrouped
    split
    · exact fun hmem => hopening (List.mem_filter.mp hmem).1
    · exact hopening
  simp only [readValue?, Text.trim_of_not_blank hblank]
  split
  · rfl
  · rw [Double.read?_eq_none_of_mem hx]
    exact constantValue?_eq_none_of_mem hx hnot

namespace Logarithm

/-! ### What is read -/

/-- The formula of the logarithm of an argument. -/
def formula (argument : List Char) : String :=
  String.ofList (['y', '='] ++ logarithmMark ++ argument ++ [')'])

/-- The right side of that formula as it is looked at: without blanks, with joined signs. -/
def right (argument : List Char) : List Char :=
  logarithmMark ++ Signs.normalize argument ++ [')']

/-- The factor of the logarithm that is read: one for the bare variable, else the value that the
argument writes as a list of parameters, one where it writes none. -/
def factor (rules : ReadingRules) (argument : List Char) : Float :=
  if Signs.normalize argument = ['x'] then 1
  else (readValue? rules (Signs.normalize argument)).getD 1

variable {rules : ReadingRules} {argument : List Char} {e : Expression}

/-- An argument that the explicit grammar can hold: an expression in the variable, without
parentheses. -/
structure Argument (argument : List Char) (e : Expression) : Prop where
  /-- It is an accepted expression. -/
  accepted : Expression.ofText argument = .ok e
  /-- It depends on the variable. -/
  dependent : e.isConstant = false
  /-- No parenthesis opens in it. -/
  opening : '(' ∉ argument
  /-- No parenthesis closes in it. -/
  closing : ')' ∉ argument

/-- The letter of the variable is kept when signs are joined. -/
theorem Argument.mem_normalize (h : Argument argument e) : 'x' ∈ Signs.normalize argument := by
  have hvariable : e.tree.hasVariable = true := by
    simpa [Expression.isConstant] using h.dependent
  rw [Signs.mem_normalize_iff (by decide) (by decide)]
  exact Expression.mem_of_hasVariable h.accepted hvariable

/-- An expression holds none of the separators of formulas and lists. -/
theorem Argument.separator (h : Argument argument e) {c : Char} (hc : c = ':' ∨ c = ',') :
    c ∉ argument := by
  intro hmem
  rcases hc with rfl | rfl
  · rcases Expression.char_cases h.accepted hmem with hc | hc | hc | hc | hc <;>
      exact absurd hc (by decide +kernel)
  · rcases Expression.char_cases h.accepted hmem with hc | hc | hc | hc | hc <;>
      exact absurd hc (by decide +kernel)

/-- Nothing of the syntax around it stands in the argument with its signs joined. -/
theorem Argument.ne_of_mem_normalize (h : Argument argument e) {c : Char}
    (hc : c ∈ Signs.normalize argument) : c ≠ '(' ∧ c ≠ ')' ∧ c ≠ ',' := by
  refine ⟨?_, ?_, ?_⟩
  · rintro rfl
    exact h.opening ((Signs.mem_normalize_iff (by decide) (by decide)).mp hc)
  · rintro rfl
    exact h.closing ((Signs.mem_normalize_iff (by decide) (by decide)).mp hc)
  · rintro rfl
    exact h.separator (Or.inr rfl) ((Signs.mem_normalize_iff (by decide) (by decide)).mp hc)

/-- The formula has no blanks at its ends. -/
theorem trim_formula (argument : List Char) :
    Text.trim (formula argument).toList = (formula argument).toList := by
  rw [formula, String.toList_ofList]
  exact Text.trim_of_ends (by decide) (by decide)

/-- Only the argument may hold blanks. -/
theorem compact_formula (argument : List Char) : Text.compact (formula argument).toList =
    ['y', '='] ++ (logarithmMark ++ Text.compact argument ++ [')']) := by
  have hfront : (['y', '='] ++ logarithmMark).filter (fun c => !Text.isBlank c) =
      ['y', '='] ++ logarithmMark := by decide
  have hclosing : [')'].filter (fun c => !Text.isBlank c) = [')'] := by decide
  rw [formula, String.toList_ofList, Text.compact, List.filter_append, List.filter_append, hfront,
    hclosing]
  simp [Text.compact]

/-- Only the argument may hold rows of signs. -/
theorem normalize_compact_right (argument : List Char) :
    Signs.normalize (logarithmMark ++ Text.compact argument ++ [')']) = right argument := by
  rw [Signs.normalize_append_singleton (by decide) (by decide)]
  simp only [logarithmMark, List.cons_append, List.nil_append]
  rw [Signs.normalize_cons (by decide) (by decide), Signs.normalize_cons (by decide) (by decide),
    Signs.normalize_cons (by decide) (by decide), Signs.normalize_cons (by decide) (by decide),
    Signs.normalize_compact]
  rfl

/-- The formula is one of the explicit grammar, without a range. -/
theorem Argument.shape (h : Argument argument e) :
    Shape.ofFormula (formula argument).toList = .explicit (right argument) none := by
  have hcolon : ':' ∉ (formula argument).toList := by
    rw [formula, String.toList_ofList]
    simp [logarithmMark, h.separator (Or.inl rfl)]
  have hcompactColon : ':' ∉ Text.compact (formula argument).toList :=
    fun hmem => hcolon (List.mem_filter.mp hmem).1
  have hcut : Text.cut ':' (Text.trim (formula argument).toList) =
      ((formula argument).toList, none) := by
    rw [trim_formula, Text.cut_of_not_mem hcolon]
  rw [Shape.ofFormula_of_cut hcut, trim_formula, Shape.ofCompact,
    Text.cut_of_not_mem hcompactColon, compact_formula]
  exact congrArg (Shape.explicit · none) (normalize_compact_right argument)

/-- The right side writes a logarithm with nothing beside it. -/
theorem Argument.form (h : Argument argument e) : readLogarithmForm? (right argument) =
    some ⟨⟨none, none, false⟩, Signs.normalize argument, none⟩ := by
  have hscan : Factor.scan false (right argument) = (⟨none, none, false⟩, right argument) := rfl
  have hmark : logarithmMark.isPrefixOf (right argument) = true := rfl
  have hdrop : (right argument).drop logarithmMark.length = Signs.normalize argument ++ [')'] := rfl
  have hinner : ∀ c ∈ Signs.normalize argument, (c != '(' && c != ')') = true := by
    intro c hc
    obtain ⟨hopening, hclosing, -⟩ := h.ne_of_mem_normalize hc
    simp [hopening, hclosing]
  have htake : (Signs.normalize argument ++ [')']).takeWhile (fun c => c != '(' && c != ')') =
      Signs.normalize argument := by
    rw [List.takeWhile_append_of_pos hinner]
    exact List.append_nil _
  have hrest : (Signs.normalize argument ++ [')']).dropWhile (fun c => c != '(' && c != ')') =
      [')'] := by
    rw [List.dropWhile_append_of_pos hinner]
    rfl
  simp only [readLogarithmForm?, hscan, hmark, hdrop, htake, hrest]
  rfl

/-- The logarithm that is read is that of the variable, with the factor. -/
theorem Argument.readLogarithm (h : Argument argument e) :
    readLogarithm rules (right argument) = .ok (.logarithmic (factor rules argument) 0) := by
  have hblank : ∀ c ∈ Signs.normalize argument, Text.isBlank c = false := fun c hc =>
    Signs.not_isBlank_of_mem_normalize hc
  have hcomma : ',' ∉ Signs.normalize argument := fun hmem =>
    (h.ne_of_mem_normalize hmem).2.2 rfl
  have hnonempty : (Signs.normalize argument).isEmpty = false := by
    rw [List.isEmpty_eq_false_iff]
    exact List.ne_nil_of_mem h.mem_normalize
  have hvalues : readValues rules (Signs.normalize argument) =
      [readValue? rules (Signs.normalize argument)] := by
    rw [readValues, Text.trim_of_not_blank hblank, hnonempty, Text.pieces_of_not_mem hcomma]
    rfl
  simp only [CurvePlot.readLogarithm, h.form, Text.trim_of_not_blank hblank, hvalues]
  unfold factor
  by_cases hx : Signs.normalize argument = ['x']
  · rw [if_pos hx, if_pos (beq_iff_eq.mpr hx)]
    have hone : Scalar.one = (1 : Float) := rfl
    have hzero : Scalar.zero = (0 : Float) := rfl
    simp [Factor.value, Factor.signed, Factor.magnitude, WrittenLogarithm.offsetValue, hone, hzero]
  · rw [if_neg hx, if_neg fun heq => hx (beq_iff_eq.mp heq)]
    rfl

/-- A power of `e` in the right side is one in the argument. -/
theorem contains_right : Text.contains exponentialMark (Text.lower (right argument)) =
    Text.contains exponentialMark (Text.lower (Signs.normalize argument)) := by
  have hlower : Text.lower (right argument) =
      logarithmMark ++ Text.lower (Signs.normalize argument) ++ [')'] := by
    simp only [Text.lower, right, List.map_append]
    rfl
  rw [Bool.eq_iff_iff, Text.contains_iff, Text.contains_iff, hlower, List.infix_concat_iff]
  have hend : ¬exponentialMark <:+ logarithmMark ++ Text.lower (Signs.normalize argument) ++ [')'] := by
    intro hsuffix
    have hlast := hsuffix.getLast (by decide)
    simp [exponentialMark] at hlast
  rw [or_iff_right hend]
  simp [logarithmMark, exponentialMark, List.infix_cons_iff]

/-- A text that begins as a logarithm does is no power of `e`. -/
theorem readExponential_eq_error {α : Type} [Scalar α] (rest : List Char) :
    readExponential (α := α) ('l' :: rest) = .error .exponentialForm := by
  have hposition : Text.position exponentialMark (Text.lower ('l' :: rest)) =
      (Text.position exponentialMark (Text.lower rest)).map (· + 1) := rfl
  rw [readExponential, hposition]
  cases Text.position exponentialMark (Text.lower rest) with
  | none => rfl
  | some n =>
    have hscan : Factor.scan false (('l' :: rest).take (n + 1)) =
        (⟨none, none, false⟩, 'l' :: rest.take n) := rfl
    simp only [Option.map_some, hscan]

/-- What the formula is read as: nothing where the argument holds a power of `e`, else a logarithm
of the variable. -/
theorem Argument.read (h : Argument argument e) : rules.read (formula argument) =
    if Text.contains exponentialMark (Text.lower (Signs.normalize argument)) then
      .error ⟨.exponentialForm, formula argument⟩
    else .ok ⟨.logarithmic (factor rules argument) 0, rules.domainOf .logarithmic [],
      formula argument⟩ := by
  have hlog : Text.contains logarithmMark (Text.lower (right argument)) = true := by
    rw [Text.contains_iff]
    exact ⟨[], _, rfl⟩
  have hexplicit : readExplicit rules (right argument) =
      if Text.contains exponentialMark (Text.lower (Signs.normalize argument)) then
        .error .exponentialForm
      else .ok (.logarithmic (factor rules argument) 0) := by
    rw [readExplicit, contains_right, if_pos hlog, h.readLogarithm]
    exact congrArg (ite _ · _) (readExponential_eq_error _)
  rw [ReadingRules.read, h.shape, ReadingRules.readShape, hexplicit, trim_formula,
    String.ofList_toList]
  by_cases hpower : Text.contains exponentialMark (Text.lower (Signs.normalize argument)) = true
  · rw [if_pos hpower, if_pos hpower]
    rfl
  · rw [if_neg hpower, if_neg hpower]
    rfl

/-- Unless the letter of the variable separates groups of digits, the factor is one. -/
theorem Argument.factor_eq_one (h : Argument argument e)
    (hseparator : rules.groupSeparator ≠ some 'x') : factor rules argument = 1 := by
  have hopening : '(' ∉ Signs.normalize argument := fun hmem => (h.ne_of_mem_normalize hmem).1 rfl
  have hmissing : readValue? rules (Signs.normalize argument) = none :=
    readValue?_eq_none_of_mem (fun c hc => Signs.not_isBlank_of_mem_normalize hc) h.mem_normalize
      hopening hseparator
  rw [factor, hmissing]
  exact ite_self _

/-! ### What the curve is -/

/-- Whether a logarithm is read as what it says: where the argument has a positive value, a curve
that is read has the logarithm of that value. -/
def Keeps (rules : ReadingRules) (argument : List Char) (e : Expression) : Prop :=
  ∀ p, rules.read (formula argument) = .ok p →
    ∀ x v : ℝ, e.tree.real? x = some v → 0 < v → p.curve.real? x = some (Real.log v)

/-- A multiple of the logarithm of `x` is that of `v` just when `v` is a power of `x`. -/
theorem real?_eq_log_iff {a : Float} {x v : ℝ} (hv : 0 < v) :
    (Curve.logarithmic a 0).real? x = some (Real.log v) ↔ 0 < x ∧ v = x ^ Double.toReal a := by
  rw [Curve.real?_logarithmic]
  refine and_congr_right fun hx => ?_
  rw [← Real.log_rpow hx, Real.log_injOn_pos.eq_iff (Real.rpow_pos_of_pos hx _) hv, eq_comm]

/-- A logarithm is read as what it says just when a power of `e` in the argument makes the formula
one that is refused, or when the argument is that power of the variable that the factor stands for,
wherever it is positive. -/
theorem Argument.keeps_iff_power (h : Argument argument e) : Keeps rules argument e ↔
    Text.contains exponentialMark (Text.lower (Signs.normalize argument)) = true ∨
      ∀ x v : ℝ, e.tree.real? x = some v → 0 < v →
        0 < x ∧ v = x ^ Double.toReal (factor rules argument) := by
  unfold Keeps
  rw [h.read]
  split
  · next hexponential => simp [hexponential]
  · next hexponential =>
    rw [or_iff_right hexponential]
    constructor
    · intro hkeeps x v hvalue hv
      exact (real?_eq_log_iff hv).mp (hkeeps _ rfl x v hvalue hv)
    · intro hpower p hp x v hvalue hv
      cases hp
      exact (real?_eq_log_iff hv).mpr (hpower x v hvalue hv)

/-- The logarithm of an argument is refused where the argument holds a power of `e`, and is read as
a multiple of the logarithm of the variable otherwise. This is the logarithm of the argument just
when the argument is the power of the variable that the factor stands for, wherever it is positive.
Unless the variable's letter separates groups of digits, the argument has to be the variable
there. -/
theorem read_and_keeps_iff (rules : ReadingRules) (argument : List Char) (e : Expression)
    (h : Argument argument e) :
    (rules.read (formula argument) =
      if Text.contains exponentialMark (Text.lower (Signs.normalize argument)) then
        .error ⟨.exponentialForm, formula argument⟩
      else .ok ⟨.logarithmic (factor rules argument) 0, rules.domainOf .logarithmic [],
        formula argument⟩) ∧
    (Keeps rules argument e ↔
      Text.contains exponentialMark (Text.lower (Signs.normalize argument)) = true ∨
        ∀ x v : ℝ, e.tree.real? x = some v → 0 < v →
          0 < x ∧ v = x ^ Double.toReal (factor rules argument)) ∧
    (rules.groupSeparator ≠ some 'x' →
      (Keeps rules argument e ↔
        Text.contains exponentialMark (Text.lower (Signs.normalize argument)) = true ∨
          ∀ x v : ℝ, e.tree.real? x = some v → 0 < v → v = x)) := by
  refine ⟨h.read, h.keeps_iff_power, fun hseparator => ?_⟩
  rw [h.keeps_iff_power, h.factor_eq_one hseparator, Double.toReal_one]
  simp only [Real.rpow_one]
  refine or_congr_right (forall_congr' fun x => forall_congr' fun v => ?_)
  refine forall_congr' fun _ => forall_congr' fun hv => ?_
  constructor
  · exact fun hx => hx.2
  · exact fun hx => ⟨hx ▸ hv, hx⟩

/-- The logarithm of the bare variable is kept. -/
theorem read_and_keeps_iff_variable :
    ∃ e, Argument ['x'] e ∧ Keeps ReadingRules.standard ['x'] e := by
  have haccepted : Expression.ofText ['x'] = .ok ⟨"x", .var ⟨0, 1⟩⟩ :=
    eq_ok_of_toOption (by decide +kernel)
  have h : Argument ['x'] ⟨"x", .var ⟨0, 1⟩⟩ :=
    ⟨haccepted, by decide, by decide, by decide⟩
  obtain ⟨-, -, hkeeps⟩ := read_and_keeps_iff ReadingRules.standard ['x'] _ h
  refine ⟨_, h, (hkeeps (by decide)).mpr (Or.inr fun x v hvalue _ => ?_)⟩
  exact (Option.some.inj hvalue).symm

/-- The logarithm of the variable's successor is not: at one the curve that is read is zero. -/
theorem not_keeps_successor :
    ∃ e, Argument ['x', '+', '1'] e ∧ ¬Keeps ReadingRules.standard ['x', '+', '1'] e := by
  have haccepted : Expression.ofText ['x', '+', '1'] =
      .ok ⟨"x+1", .binary .add (.var ⟨0, 1⟩) (.number ⟨1, 0⟩ ⟨2, 3⟩) ⟨0, 3⟩⟩ :=
    eq_ok_of_toOption (by decide +kernel)
  have h : Argument ['x', '+', '1']
      ⟨"x+1", .binary .add (.var ⟨0, 1⟩) (.number ⟨1, 0⟩ ⟨2, 3⟩) ⟨0, 3⟩⟩ :=
    ⟨haccepted, by decide, by decide, by decide⟩
  refine ⟨_, h, fun hkeeps => ?_⟩
  have hvalue : (Expr.binary .add (.var ⟨0, 1⟩) (.number ⟨1, 0⟩ ⟨2, 3⟩) ⟨0, 3⟩).real? 1 =
      some (1 + (Numeral.value ⟨1, 0⟩ : ℝ)) := by
    simp [Expr.real?, Operator.DefinedAt, Operator.apply, Scalar.ofNumeral]
  have hone : (Numeral.value ⟨1, 0⟩ : ℝ) = 1 := by norm_num [Numeral.value]
  rw [hone] at hvalue
  have hpower := (h.keeps_iff_power.mp hkeeps).resolve_left (by decide +kernel)
  have htwo := (hpower 1 _ hvalue (by norm_num)).2
  rw [Real.one_rpow] at htwo
  norm_num at htwo

end Logarithm

end CurvePlot
